import Mathlib
import SpinHub.Code.Expression
import SpinHub.Proofs.EvaluationFaults
import SpinHub.Proofs.MemoizedConstants
import SpinHub.Proofs.SettledStreams

/-!
# Folded expressions

The code of an expression runs on a stack machine. Whatever part of an expression of words was
computed while the code was written, and whatever was left to run time, the code pushes the
value of the expression, or stops at a division by zero if the expression has no value.
-/

namespace SpinHub

/-! ### A stack machine -/

/-- The operators on one value that only compute. -/
def UnaryOp.pure : List UnaryOp :=
  [.negate, .complement, .abs, .encode, .decode, .sqrt, .logicalNot]

/-- All operators on two values. -/
def BinaryOp.all : List BinaryOp :=
  [.rotateRight, .rotateLeft, .shiftRight, .shiftLeft, .shiftRightArithmetic, .reverse, .max, .min,
    .bitwiseAnd, .bitwiseOr, .bitwiseXor, .add, .subtract, .multiply, .multiplyHigh, .divide,
    .modulo, .logicalAnd, .logicalOr, .lessThan, .greaterThan, .notEqual, .isEqual, .lessOrEqual,
    .greaterOrEqual]

/-- The opcodes that start a push form. -/
def Push.opcodes : List UInt8 := [minusOne, zero, one, power, byte1, byte2, byte3, byte4]

namespace Machine

/-- Why the machine stops before the end of the code. -/
inductive Halt where
  | fault (cause : Cause)
  /-- Not an instruction, or too few values on the stack. -/
  | stuck
deriving DecidableEq

/-- The frame offset of a load and the operand bytes that it uses. -/
def load? (opcode : UInt8) (operand : Bytes) : Option (Nat × Nat) :=
  if opcode &&& 0xe3 = 0x60 then some ((opcode &&& 0x1c).toNat, 0)
  else if opcode = 0xcc then
    match operand with
    | first :: rest =>
      if first < 0x80 then some (first.toNat, 1)
      else rest.head?.map fun second => ((first &&& 0x7f).toNat * 256 + second.toNat, 2)
    | [] => none
  else none

/-- The stack after an operator. -/
def operate (opcode : UInt8) (stack : List Word) : Except Halt (List Word) :=
  match UnaryOp.pure.find? (·.opcode? = some opcode), BinaryOp.all.find? (·.opcode = opcode),
    stack with
  | some op, _, w :: stack => ((w.unary op).map (· :: stack)).mapError .fault
  | none, some op, right :: left :: stack =>
    ((left.binary op right).map (· :: stack)).mapError .fault
  | _, _, _ => .error .stuck

/-- One instruction: the operand bytes that it uses and the stack after it. -/
def step (frame : Nat → Word) (opcode : UInt8) (operand : Bytes) (stack : List Word) :
    Except Halt (Nat × List Word) :=
  match Push.decode? (opcode :: operand), load? opcode operand with
  | some (v, length), _ => .ok (length - 1, v :: stack)
  | none, some (offset, length) => .ok (length, frame offset :: stack)
  | none, none => (operate opcode stack).map fun stack => (0, stack)

/-- The stack at the end of the code. -/
def run (frame : Nat → Word) (code : Bytes) (stack : List Word) : Except Halt (List Word) :=
  match code with
  | [] => .ok stack
  | opcode :: rest =>
    match step frame opcode rest stack with
    | .ok (used, stack) => run frame (rest.drop used) stack
    | .error halt => .error halt
termination_by code.length
decreasing_by
  rw [List.length_drop, List.length_cons]
  omega

/-- Goes on with a value on the stack, or stops with the cause of there being none. -/
def resume (frame : Nat → Word) (code : Bytes) (stack : List Word) :
    Except Cause Word → Except Halt (List Word)
  | .ok w => run frame code (w :: stack)
  | .error cause => .error (.fault cause)

/-- The code gives the value, whatever follows it. -/
def Executes (frame : Nat → Word) (code : Bytes) (value : Except Cause Word) : Prop :=
  ∀ rest stack, run frame (code ++ rest) stack = resume frame rest stack value

variable {frame : Nat → Word}

/-- The machine goes on behind the operand of an instruction. -/
theorem run_of_step {opcode : UInt8} {rest : Bytes} {stack : List Word} {used : Nat}
    {stack' : List Word} (h : step frame opcode rest stack = .ok (used, stack')) :
  run frame (opcode :: rest) stack = run frame (rest.drop used) stack'
  := by
  rw [run, h]

/-! ### Operators -/

/-- An opcode that starts no push form. -/
theorem decode_none {opcode : UInt8} (rest : Bytes)
    (h : opcode ∉ Push.opcodes) :
  Push.decode? (opcode :: rest) = none
  := by
  simp only [Push.opcodes, List.mem_cons, not_or] at h
  simp [Push.decode?, Push.operandCount?, h]

/-- An opcode that is neither that of a push form nor that of a load. -/
theorem run_operator {opcode : UInt8} (rest : Bytes) (stack : List Word)
    (hpush : opcode ∉ Push.opcodes)
    (hshort : opcode &&& 0xe3 ≠ 0x60) (hlong : opcode ≠ 0xcc) :
  run frame (opcode :: rest) stack = match operate opcode stack with
    | .ok stack => run frame rest stack
    | .error halt => .error halt
  := by
  rw [run, step, decode_none rest hpush]
  simp only [load?, hshort, hlong, if_false]
  cases operate opcode stack <;> rfl

/-- An operator on one value takes it from the stack and goes on with the result. -/
theorem run_unary {op : UnaryOp} {opcode : UInt8} (hop : op ∈ UnaryOp.pure)
    (hopcode : op.opcode? = some opcode) (rest : Bytes) (w : Word) (stack : List Word) :
  run frame (opcode :: rest) (w :: stack) = resume frame rest stack (w.unary op)
  := by
  have table : opcode ∉ Push.opcodes
      ∧ opcode &&& 0xe3 ≠ 0x60 ∧ opcode ≠ 0xcc
      ∧ UnaryOp.pure.find? (·.opcode? = some opcode) = some op := by
    simp only [UnaryOp.pure, List.mem_cons, List.not_mem_nil, or_false] at hop
    rcases hop with rfl | rfl | rfl | rfl | rfl | rfl | rfl
    all_goals
      cases hopcode
      decide
  obtain ⟨hpush, hshort, hlong, hfind⟩ := table
  rw [run_operator rest _ hpush hshort hlong]
  simp only [operate, hfind]
  cases w.unary op <;> rfl

/-- An operator on two values takes them from the stack, the right one first, and goes on with the
result. -/
theorem run_binary (op : BinaryOp) (rest : Bytes) (left right : Word) (stack : List Word) :
  run frame (op.opcode :: rest) (right :: left :: stack)
    = resume frame rest stack (left.binary op right)
  := by
  have table : op.opcode ∉ Push.opcodes
      ∧ op.opcode &&& 0xe3 ≠ 0x60 ∧ op.opcode ≠ 0xcc
      ∧ UnaryOp.pure.find? (·.opcode? = some op.opcode) = none
      ∧ BinaryOp.all.find? (·.opcode = op.opcode) = some op := by
    cases op <;> decide
  obtain ⟨hpush, hshort, hlong, hunary, hfind⟩ := table
  rw [run_operator rest _ hpush hshort hlong]
  simp only [operate, hunary, hfind]
  cases left.binary op right <;> rfl

namespace Executes

/-- Code for a value and an operator behind it give the value of the operation. -/
theorem unary {op : UnaryOp} {opcode : UInt8} {code : Bytes} {value : Except Cause Word}
    (h : Executes frame code value) (hop : op ∈ UnaryOp.pure) (hopcode : op.opcode? = some opcode) :
  Executes frame (code ++ [opcode]) (value >>= Word.unary op)
  := by
  intro rest stack
  rw [List.append_assoc, h]
  cases value with
  | error cause => rfl
  | ok w => apply run_unary hop hopcode

/-- Code for two values and an operator behind it give the value of the operation. -/
theorem binary {code code' : Bytes} {value value' : Except Cause Word}
    (h : Executes frame code value) (h' : Executes frame code' value') (op : BinaryOp) :
  Executes frame (code ++ (code' ++ [op.opcode])) (do (← value).binary op (← value'))
  := by
  intro rest stack
  rw [List.append_assoc, h]
  cases value with
  | error cause => rfl
  | ok left =>
    rw [resume, List.append_assoc, h']
    cases value' with
    | error cause => rfl
    | ok right => apply run_binary

end Executes

/-! ### Pushes and loads -/

/-- A push form is read back; but a complement behind one may be read as a part of it. -/
theorem decode_form {v : Word} {code : Bytes} (h : Push.Form v code) (rest : Bytes) :
  Push.decode? (code ++ rest) = some (v, code.length)
    ∨ ∃ tail, rest = Push.complement :: tail
      ∧ Push.decode? (code ++ rest) = some (~~~v, code.length + 1)
  := by
  by_cases hrest : rest.head? = some Push.complement
  · obtain ⟨tail, rfl⟩ := List.head?_eq_some_iff.mp hrest
    cases h with
    | minusOne h | zero h | one h | power h =>
      left
      subst h
      rfl
    | plain k hcount hv =>
      by_cases hk : k ≤ 2
      · right
        use tail, rfl
        rw [List.cons_append, Push.decode_complement tail (by rw [Push.length_lowBytes, hcount])
          (by rw [Push.length_lowBytes]; exact hk), Push.bigEndianValue_lowBytes hv,
          List.length_cons]
      · left
        rw [List.cons_append, Push.decode_plain (by rw [Push.length_lowBytes, hcount])
          (by rw [Push.length_lowBytes]; intro hle; exact absurd hle hk),
          Push.bigEndianValue_lowBytes hv, List.length_cons]
    | complemented k hcount hk hv =>
      left
      rw [List.cons_append, List.append_assoc, List.singleton_append,
        Push.decode_complement _ (by rw [Push.length_lowBytes, hcount])
          (by rw [Push.length_lowBytes]; exact hk),
        Push.bigEndianValue_lowBytes hv, BitVec.not_not, List.length_cons, List.length_append,
        List.length_singleton]
  · left
    apply h.decode hrest

namespace Executes

/-- A complement behind a push form is carried out, or it is read as a part of the form. -/
theorem form {v : Word} {code : Bytes} (h : Push.Form v code) :
  Executes frame code (.ok v)
  := by
  intro rest stack
  obtain ⟨opcode, operand, rfl⟩ : ∃ opcode operand, code = opcode :: operand := by
    cases h <;> exact ⟨_, _, rfl⟩
  have hstep {w : Word} {length : Nat} (hdecode : Push.decode? (opcode :: (operand ++ rest))
      = some (w, length)) : run frame (opcode :: (operand ++ rest)) stack
        = run frame ((operand ++ rest).drop (length - 1)) (w :: stack) := by
    apply run_of_step
    rw [step, hdecode]
  rw [List.cons_append]
  rcases decode_form h rest with hdecode | ⟨tail, rfl, hdecode⟩
  · rw [hstep hdecode]
    simp [resume]
  · have hcomplement : UnaryOp.complement ∈ UnaryOp.pure := by decide
    rw [hstep hdecode, resume, Push.complement, run_unary hcomplement rfl]
    simp [resume, Word.unary]

/-- A load gives the long of the frame that its operand names. -/
theorem of_load {opcode : UInt8} {operand : Bytes} {offset : Nat}
    (hpush : opcode ∉ Push.opcodes)
    (hload : ∀ rest, load? opcode (operand ++ rest) = some (offset, operand.length)) :
  Executes frame (opcode :: operand) (.ok (frame offset))
  := by
  intro rest stack
  rw [List.cons_append, resume]
  have hstep : step frame opcode (operand ++ rest) stack
      = .ok (operand.length, frame offset :: stack) := by
    rw [step, decode_none _ hpush, hload]
  rw [run_of_step hstep, List.drop_left]

/-- The long form of a load has its offset in one byte, or in two if the top bit of the first is
set. -/
theorem load?_long (first : UInt8) (rest : Bytes) :
  load? 0xcc (first :: rest) = if first < 0x80 then some (first.toNat, 1)
    else rest.head?.map fun second => ((first &&& 0x7f).toNat * 256 + second.toNat, 2)
  := rfl

/-- A long of the frame is loaded from the offset that it was written with. -/
theorem load {offset : Nat} (haligned : offset % 4 = 0) (hbelow : offset < 32768) :
  ∃ code, Access.load.encode? 4 .frame offset false = some code
    ∧ ∀ frame, Executes frame code (.ok (frame offset))
  := by
  by_cases hshort : offset < 32
  · obtain ⟨k, rfl⟩ : ∃ k, offset = 4 * k := ⟨offset / 4, by omega⟩
    have table : ∀ k < 8, ∃ opcode : UInt8,
        Access.load.encode? 4 .frame (4 * k : Nat) false = some [opcode]
        ∧ opcode ∉ Push.opcodes
        ∧ opcode &&& 0xe3 = 0x60 ∧ (opcode &&& 0x1c).toNat = 4 * k := by
      intro k hk
      use 0x60 ||| 0 ||| lowByte (4 * k : Nat)
      interval_cases k
      all_goals decide
    obtain ⟨opcode, hcode, hpush, hload, hoffset⟩ := table k (by omega)
    use [opcode], hcode
    intro frame
    apply of_load hpush
    intro rest
    simp [load?, hload, hoffset]
  · refine ⟨0xcc :: Access.offsetOperand offset, ?_, ?_⟩
    · have hlong : ¬ ((offset : Int) < 32) := by omega
      simp [Access.encode?, Access.shortBase?, hlong]
      decide
    · intro frame
      apply of_load (by decide)
      intro rest
      have hlow := toNat_lowByte offset
      have hhigh := toNat_highByte offset
      have hbound : (0x80 : UInt8).toNat = 128 := rfl
      by_cases hone : offset < 128
      · have hfirst : lowByte offset < 0x80 := by
          rw [UInt8.lt_iff_toNat_lt, hbound]
          omega
        have hoffset : (lowByte offset).toNat = offset := by omega
        rw [Access.offsetOperand, if_pos (by omega), List.singleton_append, load?_long,
          if_pos hfirst, hoffset, List.length_singleton]
      · have htop := toNat_or_topBit (highByte offset)
        have hfirst : ¬ (highByte offset ||| 0x80) < 0x80 := by
          rw [UInt8.lt_iff_toNat_lt, htop, hbound]
          omega
        have hoffset : ((highByte offset ||| 0x80) &&& 0x7f).toNat * 256
            + (lowByte offset).toNat = offset := by
          rw [toNat_and_lowBits, htop]
          omega
        rw [Access.offsetOperand, if_neg (by omega), List.cons_append, List.singleton_append,
          load?_long, if_neg hfirst, List.head?_cons, Option.map_some, hoffset]
        rfl

end Executes

end Machine

/-! ### Writing code -/

namespace Stream

theorem eq_nil_of_appendCode {chunks : List Chunk} {bytes : Bytes}
    (h : appendCode chunks bytes = []) :
  chunks = []
  := by
  cases chunks with
  | nil => rfl
  | cons chunk rest => cases chunk <;> cases rest <;> simp [appendCode] at h

/-- Runs of code that are appended in turn join. -/
theorem appendCode_appendCode (chunks : List Chunk) (first second : Bytes) :
  appendCode (appendCode chunks first) second = appendCode chunks (first ++ second)
  := by
  fun_induction appendCode chunks first with
  | case1 bytes h => rw [List.isEmpty_iff.mp h, List.nil_append]
  | case2 bytes h =>
    have hne : bytes ≠ [] := by simpa using h
    simp [appendCode, hne]
  | case3 bytes code => simp [appendCode]
  | case4 chunk rest bytes h ih =>
    rw [appendCode, appendCode, ih]
    · exact h
    · intro code hchunk hrest
      apply h code hchunk (eq_nil_of_appendCode hrest)

/-- Code that is written in turn is code that is written at once. -/
theorem code_code (stream : Stream) (first second : Bytes) :
  (stream.code first).code second = stream.code (first ++ second)
  := by
  rw [code, code, code, appendCode_appendCode]

end Stream

/-- The computation succeeds and appends bytes of a kind to the stream. All else it changes is
the memo. -/
def Writes (site : Site) (base : Memo) (action : Emit Unit) (kind : Bytes → Prop) : Prop :=
  ∀ draft : Draft, Sound site.objects base [] draft.memo → ∃ bytes memo',
    Yields action draft () { draft with stream := draft.stream.code bytes, memo := memo' }
    ∧ Sound site.objects base [] memo' ∧ kind bytes

/-- The bytes give the value. -/
def Gives (value : (Nat → Word) → Except Cause Word) (bytes : Bytes) : Prop :=
  ∀ frame, Machine.Executes frame bytes (value frame)

/-- The result is the word, or a failure if there is no word. -/
def Matches : Except Cause Word → Except Fault Value → Prop
  | .ok w, result => result = .ok (.int w)
  | .error _, result => ∃ fault, result = .error fault

/-- From every sound memo, the result is the word, or a failure if there is no word. -/
def Evaluates (site : Site) (base : Memo) (x : Eval Value) (value : Except Cause Word) : Prop :=
  ∀ memo, Sound site.objects base [] memo → ∃ result memo',
    x.run.run memo = (result, memo') ∧ Sound site.objects base [] memo' ∧ Matches value result

variable {site : Site} {base : Memo} {kind kind' : Bytes → Prop}
  {value : (Nat → Word) → Except Cause Word}

theorem run_evaluate {α : Type} (action : Eval α) (draft : Draft) :
  (Emit.evaluate action).run.run draft
    = ((action.run.run draft.memo).1, { draft with memo := (action.run.run draft.memo).2 })
  := rfl

/-- An evaluation that fails gives nothing, and the memo that it has reached stays. -/
theorem run_evaluate? {α : Type} (action : Eval α) (draft : Draft) :
  (Emit.evaluate? action).run.run draft
    = (.ok (action.run.run draft.memo).1.toOption,
        { draft with memo := (action.run.run draft.memo).2 })
  := by
  rw [Emit.evaluate?, run_tryCatch, map_eq_pure_bind, run_bind, run_evaluate]
  rcases action.run.run draft.memo with ⟨fault | a, memo⟩ <;> rfl

namespace Writes

/-- Bytes of a kind are of any wider kind. -/
theorem mono {action : Emit Unit} (h : Writes site base action kind)
    (hkind : ∀ bytes, kind bytes → kind' bytes) :
  Writes site base action kind'
  := by
  intro draft hdraft
  obtain ⟨bytes, memo', hyields, hsound, hbytes⟩ := h draft hdraft
  use bytes, memo', hyields, hsound
  apply hkind bytes hbytes

/-- Code that gives a value gives any value that is always equal to it. -/
theorem of_value {value' : (Nat → Word) → Except Cause Word} {action : Emit Unit}
    (h : Writes site base action (Gives value')) (hvalue : ∀ frame, value frame = value' frame) :
  Writes site base action (Gives value)
  := by
  rw [funext hvalue]
  exact h

theorem code (bytes : Bytes) :
  Writes site base (Emit.code bytes) (· = bytes)
  := by
  intro draft hdraft
  exact ⟨bytes, draft.memo, rfl, hdraft, rfl⟩

/-- A word is pushed by code that gives it. -/
theorem push (w : Word) :
  Writes site base (Emit.push w) (Gives fun _ => .ok w)
  := by
  intro draft hdraft
  refine ⟨Push.shortest w, draft.memo, rfl, hdraft, ?_⟩
  intro frame
  apply Machine.Executes.form (Push.encode_form w 1)

/-- Two parts in turn write the bytes of both. -/
theorem seq {first second : Emit Unit} (hfirst : Writes site base first kind)
    (hsecond : Writes site base second kind') :
  Writes site base (do first; second) fun bytes =>
    ∃ front back, bytes = front ++ back ∧ kind front ∧ kind' back
  := by
  intro draft hdraft
  obtain ⟨front, middle, hfront, hmiddle, hkind⟩ := hfirst draft hdraft
  obtain ⟨back, memo', hback, hmemo', hkind'⟩ :=
    hsecond { draft with stream := draft.stream.code front, memo := middle } hmiddle
  refine ⟨front ++ back, memo', ?_, hmemo', front, back, rfl, hkind, hkind'⟩
  apply yields_bind.mpr ⟨(), _, hfront, ?_⟩
  rw [← Stream.code_code]
  exact hback

/-- A constant expression is pushed as its value. -/
theorem pushConstant {e : Exp} {w : Word} (h : Evaluates site base (site.eval e) (.ok w)) :
  Writes site base (site.pushConstant e) (Gives fun _ => .ok w)
  := by
  intro draft hdraft
  obtain ⟨result, memo', hrun, hmemo', rfl⟩ := h draft.memo hdraft
  obtain ⟨bytes, memo'', hpush, hmemo'', hbytes⟩ := push w { draft with memo := memo' } hmemo'
  refine ⟨bytes, memo'', ?_, hmemo'', hbytes⟩
  apply yields_bind.mpr ⟨.int w, _, ?_, hpush⟩
  rw [Yields, run_evaluate, hrun]

/-- An operator on constants is pushed as its value if it has one. -/
theorem folded {e : Exp} {code : Emit Unit} (hcode : Writes site base code (Gives value))
    (hvalue : site.isConstant e →
      ∃ result, Evaluates site base (site.eval e) result ∧ ∀ frame, value frame = result) :
  Writes site base (site.folded e code) (Gives value)
  := by
  by_cases hconstant : site.isConstant e
  · obtain ⟨result, heval, hresult⟩ := hvalue hconstant
    intro draft hdraft
    obtain ⟨found, memo', hrun, hmemo', hfound⟩ := heval draft.memo hdraft
    have hfirst : Yields (Emit.evaluate? (site.eval e)) draft found.toOption
        { draft with memo := memo' } := by
      rw [Yields, run_evaluate?, hrun]
    rw [Site.folded, if_pos hconstant]
    cases result with
    | ok w =>
      subst hfound
      obtain ⟨bytes, memo'', hpush, hmemo'', hbytes⟩ := push w { draft with memo := memo' } hmemo'
      refine ⟨bytes, memo'', yields_bind.mpr ⟨_, _, hfirst, hpush⟩, hmemo'', ?_⟩
      intro frame
      rw [hresult frame]
      apply hbytes frame
    | error cause =>
      obtain ⟨fault, rfl⟩ := hfound
      obtain ⟨bytes, memo'', hyields, hmemo'', hbytes⟩ := hcode { draft with memo := memo' } hmemo'
      exact ⟨bytes, memo'', yields_bind.mpr ⟨_, _, hfirst, hyields⟩, hmemo'', hbytes⟩
  · rw [Site.folded, if_neg hconstant]
    exact hcode

end Writes

/-! ### Expressions of words -/

/-- Expressions of words: literals, constants that are words, longs of the frame, and operators
that only compute. -/
inductive Site.Integral (site : Site) (memo : Memo) : Exp → Prop where
  | int (pos : Pos) (w : Word) : Integral site memo (.int pos w)
  | con {e : Exp} {name : String} {owner : ObjId} {index : Nat} {con : Con} {w : Word} :
      e.simpleName? = some name → site.lookup? name = some (.con owner index con) →
      ((site.eval e).run.run memo).1 = .ok (.int w) → Integral site memo e
  | member {pos : Pos} {object name : String} {w : Word} :
      ((site.eval (.member pos object name)).run.run memo).1 = .ok (.int w) →
      Integral site memo (.member pos object name)
  | slot {e : Exp} {name : String} {offset : Nat} :
      e.simpleName? = some name → site.lookup? name = some (.slot offset) →
      offset % 4 = 0 → offset < 32768 → Integral site memo e
  | unary {pos : Pos} {op : UnaryOp} {operand : Exp} :
      op ∈ UnaryOp.pure → Integral site memo operand → Integral site memo (.unary pos op operand)
  | binary {pos : Pos} {op : BinaryOp} {left right : Exp} :
      Integral site memo left → Integral site memo right →
      Integral site memo (.binary pos op left right)

/-- The value of a name or of a constant of another object. -/
def Site.directValue (site : Site) (memo : Memo) (frame : Nat → Word) (e : Exp) :
    Except Cause Word :=
  match e.simpleName?.bind site.lookup? with
  | some (.slot offset) => .ok (frame offset.toNat)
  | _ =>
    match ((site.eval e).run.run memo).1 with
    | .ok v => v.toWord
    | .error fault => .error fault.cause

/-- The value of an expression by its operators alone. -/
def Site.direct (site : Site) (memo : Memo) (frame : Nat → Word) : Exp → Except Cause Word
  | .int _ w => .ok w
  | .unary _ op operand => do (← site.direct memo frame operand).unary op
  | .binary _ op left right => do
    (← site.direct memo frame left).binary op (← site.direct memo frame right)
  | e => site.directValue memo frame e

/-! ### Values -/

namespace Evaluates

/-- A word that an expression has at the start, it always has. -/
theorem of_run {e : Exp} {w : Word} (h : ((site.eval e).run.run base).1 = .ok (.int w)) :
  Evaluates site base (site.eval e) (.ok w)
  := by
  intro memo hmemo
  obtain ⟨memo', hrun, hmemo'⟩ := site.run_eval e hmemo
  exact ⟨_, memo', hrun, hmemo', h⟩

/-- An operation that fails is a failed evaluation. -/
theorem liftAt (pos : Pos) (r : Except Cause Word) :
  Evaluates site base (liftAt pos (r.map .int)) r
  := by
  intro memo hmemo
  cases r with
  | error cause => exact ⟨_, memo, rfl, hmemo, _, rfl⟩
  | ok w => exact ⟨_, memo, rfl, hmemo, rfl⟩

/-- Evaluations in turn match computations on words in turn. -/
theorem bind {x : Eval Value} {f : Value → Eval Value} {v : Except Cause Word}
    {g : Word → Except Cause Word} (hx : Evaluates site base x v)
    (hf : ∀ w, Evaluates site base (f (.int w)) (g w)) :
  Evaluates site base (x >>= f) (v >>= g)
  := by
  intro memo hmemo
  obtain ⟨result, middle, hrun, hmiddle, hresult⟩ := hx memo hmemo
  rw [run_bind, hrun]
  cases v with
  | error cause =>
    obtain ⟨fault, rfl⟩ := hresult
    exact ⟨_, middle, rfl, hmiddle, fault, rfl⟩
  | ok w =>
    cases hresult
    apply hf w middle hmiddle

/-- An operator on one value is evaluated by what it does to words. -/
theorem unary {operand : Exp} {v : Except Cause Word} (pos : Pos) {op : UnaryOp}
    (h : Evaluates site base (site.eval operand) v) (hop : op ∈ UnaryOp.pure) :
  Evaluates site base (site.eval (.unary pos op operand)) (v >>= Word.unary op)
  := by
  rw [Site.eval, Site.evalWith]
  · apply bind h
    intro w
    apply liftAt
  · rintro rfl
    exact absurd hop (by decide)

/-- An operator on two values is evaluated by what it does to words. -/
theorem binary {left right : Exp} {v v' : Except Cause Word} (pos : Pos) (op : BinaryOp)
    (h : Evaluates site base (site.eval left) v) (h' : Evaluates site base (site.eval right) v') :
  Evaluates site base (site.eval (.binary pos op left right)) (do (← v).binary op (← v'))
  := by
  apply bind h
  intro l
  apply bind h'
  intro r
  apply liftAt

end Evaluates

/-- The pure operators give a word. -/
theorem Word.unary_of_pure {op : UnaryOp} (hop : op ∈ UnaryOp.pure) (w : Word) :
  ∃ v, w.unary op = .ok v
  := by
  simp only [UnaryOp.pure, List.mem_cons, List.not_mem_nil, or_false] at hop
  rcases hop with rfl | rfl | rfl | rfl | rfl | rfl | rfl
  all_goals exact ⟨_, rfl⟩

/-- The two ways to write a name without subscripts. -/
theorem Exp.eq_of_simpleName {e : Exp} {name : String} (h : e.simpleName? = some name) :
  ∃ pos, e = .name pos name ∨ e = .cell pos name none []
  := by
  unfold Exp.simpleName? at h
  split at h
  · cases h
    exact ⟨_, .inl rfl⟩
  · cases h
    exact ⟨_, .inr rfl⟩
  · cases h

namespace Site

/-- A constant is pushed by value. -/
theorem push_of_con {e : Exp} {name : String} {owner : ObjId} {index : Nat} {con : Con}
    (hname : e.simpleName? = some name) (hcon : site.lookup? name = some (.con owner index con)) :
  e.push site = site.pushConstant e
  := by
  rw [Site.lookup?] at hcon
  obtain ⟨pos, rfl | rfl⟩ := Exp.eq_of_simpleName hname
  all_goals
    simp [Exp.push, Code.push, Exp.code, nameCode, lookup, lookupIn, hcon, accessName,
      pushConstant, eval, evalWith, nameValue]

/-- A slot of the frame is loaded from its offset in 32 bits. -/
theorem accessName_of_slot {name : String} {offset : Int}
    (hslot : site.lookup? name = some (.slot offset)) (pos : Pos) :
  site.accessName pos name .load = accessCell pos .load 4 .frame (int32 offset) none
  := by
  rw [Site.lookup?] at hslot
  rw [accessName, lookup, lookupIn, hslot]
  rfl

/-- A long of the frame is pushed by a load. -/
theorem push_of_slot {e : Exp} {name : String} {offset : Int} {code : Bytes}
    (hname : e.simpleName? = some name) (hslot : site.lookup? name = some (.slot offset))
    (hcode : Access.load.encode? 4 .frame (int32 offset) false = some code) :
  e.push site = Emit.code code
  := by
  have haccess (pos : Pos) : site.accessName pos name .load = Emit.code code := by
    rw [accessName_of_slot hslot]
    generalize int32 offset = word at hcode
    simp [accessCell, hcode]
  rw [Site.lookup?] at hslot
  obtain ⟨pos, rfl | rfl⟩ := Exp.eq_of_simpleName hname
  all_goals
    rw [← haccess pos]
    simp [Exp.push, Code.push, Exp.code, nameCode, lookup, lookupIn, hslot]

/-- An operation on one value is folded, or written behind its operand. -/
theorem push_unary {op : UnaryOp} {opcode : UInt8} (pos : Pos) (operand : Exp)
    (hop : op ∈ UnaryOp.pure) (hopcode : op.opcode? = some opcode) :
  Exp.push site (.unary pos op operand)
    = site.folded (.unary pos op operand) (do operand.push site; Emit.opcode opcode)
  := by
  have table : ∀ op ∈ UnaryOp.pure, op.isAssignment = false := by decide
  simp [Exp.push, Code.push, Exp.code, unaryCode, Code.ofValue, unary, hopcode, table op hop]

/-- An operation on two values is folded, or written behind its operands. -/
theorem push_binary (pos : Pos) (op : BinaryOp) (left right : Exp) :
  Exp.push site (.binary pos op left right)
    = site.folded (.binary pos op left right)
        (do left.push site; right.push site; Emit.opcode op.opcode)
  := by
  rw [Exp.push, Exp.code]
  rfl

/-- A name outside of the frame has the value that it is evaluated to. -/
theorem directValue_of_run {e : Exp} {w : Word} (frame : Nat → Word)
    (hslot : ∀ offset, e.simpleName?.bind site.lookup? ≠ some (.slot offset))
    (hrun : ((site.eval e).run.run base).1 = .ok (.int w)) :
  site.directValue base frame e = .ok w
  := by
  unfold directValue
  split
  · rename_i offset heq
    exact absurd heq (hslot offset)
  · rw [hrun]
    rfl

/-- A name has no operators, so its direct value is its value. -/
theorem direct_of_simpleName {e : Exp} {name : String} (h : e.simpleName? = some name)
    (frame : Nat → Word) :
  site.direct base frame e = site.directValue base frame e
  := by
  obtain ⟨pos, rfl | rfl⟩ := Exp.eq_of_simpleName h
  · rfl
  · rfl

theorem isConstant_of_simpleName {e : Exp} {name : String} (h : e.simpleName? = some name) :
  site.isConstant e = site.isCon name
  := by
  obtain ⟨pos, rfl | rfl⟩ := Exp.eq_of_simpleName h
  · rfl
  · rfl

namespace Integral

variable {e : Exp}

/-- The direct value of a constant is the word that it is evaluated to. -/
theorem direct_con {name : String} {owner : ObjId} {index : Nat} {con : Con} {w : Word}
    (hname : e.simpleName? = some name) (hcon : site.lookup? name = some (.con owner index con))
    (hrun : ((site.eval e).run.run base).1 = .ok (.int w)) (frame : Nat → Word) :
  site.direct base frame e = .ok w
  := by
  rw [direct_of_simpleName hname]
  apply directValue_of_run _ _ hrun
  intro offset
  simp [hname, hcon]

theorem direct_member {pos : Pos} {object name : String} {w : Word}
    (hrun : ((site.eval (.member pos object name)).run.run base).1 = .ok (.int w))
    (frame : Nat → Word) :
  site.direct base frame (.member pos object name) = .ok w
  := by
  apply directValue_of_run _ _ hrun
  simp [Exp.simpleName?]

/-- The direct value of a long of the frame is what it holds. -/
theorem direct_slot {name : String} {offset : Nat} (hname : e.simpleName? = some name)
    (hslot : site.lookup? name = some (.slot offset)) (frame : Nat → Word) :
  site.direct base frame e = .ok (frame offset)
  := by
  rw [direct_of_simpleName hname, directValue, hname, Option.bind_some, hslot]
  rfl

/-- A constant expression evaluates to its value, which no frame has a part in. -/
theorem evaluates (h : site.Integral base e) (hconstant : site.isConstant e) :
  ∃ result, Evaluates site base (site.eval e) result
    ∧ ∀ frame, site.direct base frame e = result
  := by
  induction h with
  | int pos w => exact ⟨.ok w, Evaluates.liftAt pos (.ok w), fun _ => rfl⟩
  | con hname hcon hrun => exact ⟨_, Evaluates.of_run hrun, direct_con hname hcon hrun⟩
  | member hrun => exact ⟨_, Evaluates.of_run hrun, direct_member hrun⟩
  | slot hname hslot _ _ =>
    rw [isConstant_of_simpleName hname, isCon, hslot] at hconstant
    cases hconstant
  | unary hop _ ih =>
    simp only [isConstant, Bool.and_eq_true] at hconstant
    obtain ⟨result, heval, hresult⟩ := ih hconstant.2
    refine ⟨_, heval.unary _ hop, ?_⟩
    intro frame
    rw [direct, hresult]
  | binary _ _ ihl ihr =>
    simp only [isConstant, Bool.and_eq_true] at hconstant
    obtain ⟨left, hleft, hlvalue⟩ := ihl hconstant.1
    obtain ⟨right, hright, hrvalue⟩ := ihr hconstant.2
    refine ⟨_, hleft.binary _ _ hright, ?_⟩
    intro frame
    rw [direct, hlvalue, hrvalue]

/-- The code of an expression gives its value. -/
theorem writes (h : site.Integral base e) :
  Writes site base (e.push site) (Gives fun frame => site.direct base frame e)
  := by
  induction h with
  | int pos w =>
    rw [Exp.push, Exp.code]
    apply Writes.pushConstant (Evaluates.of_run rfl)
  | con hname hcon hrun =>
    rw [push_of_con hname hcon]
    apply (Writes.pushConstant (Evaluates.of_run hrun)).of_value
    apply direct_con hname hcon hrun
  | member hrun =>
    rw [Exp.push, Exp.code]
    apply (Writes.pushConstant (Evaluates.of_run hrun)).of_value
    apply direct_member hrun
  | slot hname hslot haligned hbelow =>
    obtain ⟨code, hcode, hload⟩ := Machine.Executes.load haligned hbelow
    rw [push_of_slot hname hslot (by rwa [int32_natCast (by omega)])]
    apply (Writes.code code).mono
    rintro _ rfl frame
    simp only [direct_slot hname hslot]
    apply hload
  | @unary pos op operand hop hoperand ih =>
    have table : ∀ op ∈ UnaryOp.pure, op.opcode?.isSome := by decide
    obtain ⟨opcode, hopcode⟩ := Option.isSome_iff_exists.mp (table op hop)
    rw [push_unary pos operand hop hopcode]
    apply Writes.folded _ (Integral.evaluates (.unary hop hoperand))
    apply (ih.seq (Writes.code [opcode])).mono
    rintro _ ⟨front, _, rfl, hfront, rfl⟩ frame
    apply (hfront frame).unary hop hopcode
  | @binary pos op left right hleft hright ihl ihr =>
    rw [push_binary]
    apply Writes.folded _ (Integral.evaluates (.binary hleft hright))
    apply (ihl.seq (ihr.seq (Writes.code [op.opcode]))).mono
    rintro _ ⟨front, _, rfl, hfront, back, _, rfl, hback, rfl⟩ frame
    apply (hfront frame).binary (hback frame)

/-- The only way for an expression to have no value is a division by zero. -/
theorem direct_cause (h : site.Integral base e) {frame : Nat → Word} {cause : Cause}
    (herror : site.direct base frame e = .error cause) :
  cause = .divideByZero
  := by
  induction h generalizing cause with
  | int pos w => cases herror
  | con hname hcon hrun =>
    rw [direct_con hname hcon hrun] at herror
    cases herror
  | member hrun =>
    rw [direct_member hrun] at herror
    cases herror
  | slot hname hslot _ _ =>
    rw [direct_slot hname hslot] at herror
    cases herror
  | @unary pos op operand hop _ ih =>
    rw [direct] at herror
    cases hvalue : site.direct base frame operand with
    | error cause' =>
      rw [hvalue] at herror
      cases herror
      apply ih hvalue
    | ok w =>
      obtain ⟨v, hv⟩ := Word.unary_of_pure hop w
      rw [hvalue] at herror
      cases hv.symm.trans herror
  | @binary pos op left right _ _ ihl ihr =>
    rw [direct] at herror
    cases hleft : site.direct base frame left with
    | error cause' =>
      rw [hleft] at herror
      cases herror
      apply ihl hleft
    | ok l =>
      cases hright : site.direct base frame right with
      | error cause' =>
        rw [hleft, hright] at herror
        cases herror
        apply ihr hright
      | ok r =>
        rw [hleft, hright] at herror
        apply Word.binary_cause herror

end Integral

end Site

/-- The code that is written for an expression of words runs, from any frame and stack, to its
value on top of the stack, and it stops with a division by zero exactly when the expression
does. -/
theorem push_runs (site : Site) (draft : Draft) (e : Exp) (h : site.Integral draft.memo e) :
  ∃ bytes memo, Yields (e.push site) draft () { draft with
      stream := draft.stream.code bytes, memo }
    ∧ ∀ frame stack,
      (∃ w, site.direct draft.memo frame e = .ok w
        ∧ Machine.run frame bytes stack = .ok (w :: stack))
      ∨ (site.direct draft.memo frame e = .error .divideByZero
        ∧ Machine.run frame bytes stack = .error (.fault .divideByZero))
  := by
  obtain ⟨bytes, memo, hyields, _, hbytes⟩ := h.writes draft (Sound.refl ..)
  use bytes, memo, hyields
  intro frame stack
  have hrun : Machine.run frame bytes stack
      = Machine.resume frame [] stack (site.direct draft.memo frame e) := by
    rw [← hbytes frame [] stack, List.append_nil]
  cases hvalue : site.direct draft.memo frame e with
  | ok w =>
    left
    rw [hvalue, Machine.resume, Machine.run] at hrun
    exact ⟨w, rfl, hrun⟩
  | error cause =>
    right
    cases h.direct_cause hvalue
    rw [hvalue] at hrun
    exact ⟨rfl, hrun⟩

/-- An object with a constant, a sub-object with another one, and a long in the frame. -/
def frameSite : Site where
  objects := [
    { file := "top", names := [("A", .con 0), ("SUB", .sub 0)]
      cons := [{ name := { name := "A" }, value := .int {} 2 }]
      subs := [{ name := { name := "sub" }, file := { name := "sub" }, countExp := none
                 ownsVars := true, target := 1 }] },
    { file := "sub", names := [("B", .con 0)]
      cons := [{ name := { name := "B" }, value := .int {} 3 }] }]
  obj := 0
  scope := [("X", 200)]

/-- `!(A + X) / (X - SUB#B)`, which has a value if `X` is 5 and none if it is 3. -/
theorem push_runs_quotient :
  let e : Exp := .binary {} .divide
    (.unary {} .complement (.binary {} .add (.name {} "A") (.name {} "x")))
    (.binary {} .subtract (.name {} "x") (.member {} "sub" "B"))
  frameSite.Integral [] e ∧ ∃ bytes memo,
    Yields (e.push frameSite) {} () { stream := Stream.code {} bytes, memo }
      ∧ Machine.run (fun _ => 5) bytes [7] = .ok [-4, 7]
      ∧ Machine.run (fun _ => 3) bytes [7] = .error (.fault .divideByZero)
  := by
  intro e
  have hx : frameSite.Integral [] (.name {} "x") := .slot rfl rfl (by decide) (by decide)
  have he : frameSite.Integral [] e := by
    apply Site.Integral.binary
    · apply Site.Integral.unary (by decide)
      apply Site.Integral.binary (.con rfl rfl rfl) hx
    · apply Site.Integral.binary hx (.member rfl)
  obtain ⟨bytes, memo, hyields, hruns⟩ := push_runs frameSite {} e he
  have hfive : frameSite.direct [] (fun _ => 5) e = .ok (-4) := by decide +kernel
  have hthree : frameSite.direct [] (fun _ => 3) e = .error .divideByZero := by decide +kernel
  refine ⟨he, bytes, memo, hyields, ?_, ?_⟩
  · rcases hruns (fun _ => 5) [7] with ⟨w, hw, hrun⟩ | ⟨herror, _⟩
    · cases hfive.symm.trans hw
      exact hrun
    · cases hfive.symm.trans herror
  · rcases hruns (fun _ => 3) [7] with ⟨w, hw, _⟩ | ⟨_, hrun⟩
    · cases hthree.symm.trans hw
    · exact hrun

end SpinHub
