import SpinHub.Bytecode.Stream
import SpinHub.Evaluation

/-!
# Drafts

The draft of a method is its code stream while it is written, with the strings that will
follow the code, the remarks made on the way, and what is around the statement at hand.
-/

namespace SpinHub

/-- What is around a statement: the targets of the innermost loop, and the CASEs inside it. -/
structure Nest where
  /-- The next pass of the loop. -/
  next : Option Target := none
  /-- The end of the loop. -/
  quit : Option Target := none
  cases : Nat := 0
  /-- The loop, if there is one, keeps no counter on the stack. -/
  plain : Bool := true
deriving DecidableEq

namespace Nest

/-- What is around the parts of a CASE. -/
def deeper (nest : Nest) : Nest := { nest with cases := nest.cases + 1 }

/-- What is around a CASE, from what is around its parts. -/
def shallower (nest : Nest) : Nest := { nest with cases := nest.cases - 1 }

end Nest

/-- A method's code while it is written. -/
structure Draft where
  stream : Stream := {}
  /-- The strings used so far, each with the target that stands for its address. -/
  strings : List (Target × String) := []
  warnings : List (Pos × String) := []
  memo : Memo := []
  nest : Nest := {}

/-- Computations that write a draft and may fail. -/
abbrev Emit := ExceptT Fault (StateM Draft)

namespace Emit

/-- Changes the stream. -/
def edit (f : Stream → Stream) : Emit Unit :=
  modify fun draft => { draft with stream := f draft.stream }

/-- Writes final bytes. -/
def code (bytes : Bytes) : Emit Unit := edit (·.code bytes)

/-- Writes one opcode. -/
def opcode (byte : UInt8) : Emit Unit := code [byte]

/-- Writes the shortest push of a word. -/
def push (w : Word) : Emit Unit := edit (·.push w)

/-- Makes a new target. -/
def newTarget : Emit Target := do
  let draft ← get
  let made := draft.stream.newTarget
  set { draft with stream := made.2 }
  return made.1

/-- Places a target here. -/
def place (target : Target) : Emit Unit := edit (·.place target)

/-- Writes a jump to a target. -/
def jump (byte : UInt8) (target : Target) : Emit Unit := edit (·.jump byte target)

/-- Writes a push of a target's address. -/
def offset (target : Target) : Emit Unit := edit (·.offset target)

/-- Writes a push of the address of a string, which is added to the pool. -/
def string (text : String) : Emit Unit := do
  let target ← newTarget
  edit (·.stringOffset target)
  modify fun draft => { draft with strings := draft.strings ++ [(target, text)] }

/-- Adds a remark about a place. -/
def warn (pos : Pos) (text : String) : Emit Unit :=
  modify fun draft => { draft with warnings := draft.warnings ++ [(pos, text)] }

/-- Evaluates with the memo of the draft. -/
def evaluate {α : Type} (action : Eval α) : Emit α :=
  ExceptT.mk fun draft =>
    let out := action.run.run draft.memo
    (out.1, { draft with memo := out.2 })

/-- Evaluates; a failure gives no value. -/
def evaluate? {α : Type} (action : Eval α) : Emit (Option α) :=
  tryCatch (some <$> evaluate action) fun _ => return none

/-- Changes what is around the statements that follow. -/
def modifyNest (f : Nest → Nest) : Emit Unit :=
  modify fun draft => { draft with nest := f draft.nest }

/-- Writes a part, and then has around it what was there before, also if the part fails. -/
def restoring (part : Emit Unit) : Emit Unit :=
  ExceptT.mk fun draft =>
    let out := part.run.run draft
    (out.1, { out.2 with nest := draft.nest })

/-- Writes all parts in order. -/
def all (parts : List (Emit Unit)) : Emit Unit := parts.forM id

end Emit

/-- The opcode that returns from a method without a value. -/
def returnOpcode : UInt8 := 0x32

namespace Draft

/-- The bytes of a string in the pool: the low byte of every character, and a zero. -/
def stringBytes (text : String) : Bytes :=
  text.toList.map (fun c => UInt8.ofNat c.toNat) ++ [0]

/-- The stream with its final return and its strings. -/
def close (draft : Draft) : Stream :=
  draft.strings.foldl (fun stream entry => (stream.place entry.1).code (stringBytes entry.2))
    (draft.stream.code [returnOpcode])

/-- The bytes of a method that starts at `base`. -/
def finish (draft : Draft) (base : Int) (limit : Nat) : Except Cause Bytes :=
  match draft.close.settle base limit with
  | (stream, .ok ()) => .ok stream.toBytes
  | (_, .error cause) => .error cause

end Draft

end SpinHub
