import Mathlib
import SpinHub.Proofs.DraftInvariants
import SpinHub.Proofs.SettledStreams

/-!
# Exits of loops

NEXT and QUIT leave a pass of the innermost loop around them, and first take away what the CASEs
between them and that loop keep on the stack. What is around a statement is in the draft: loops and
CASEs change it for their parts and leave behind what they have found, which is what `Emit.Plain`
follows. A hole is a place for a statement at any depth of nested statements; `Hole.opening` writes
what comes before the hole, and says what is to be written behind it. So it is known of every NEXT
and QUIT what it is written as.
-/

namespace SpinHub

/-! ### Pieces -/

namespace Chunk

/-- A chunk cut into single bytes, records and marks. -/
def pieces : Chunk → List Chunk
  | .code run => run.map fun byte => .code [byte]
  | chunk => [chunk]

end Chunk

namespace Stream

/-- A stream cut into single bytes, records and marks. -/
def pieces (stream : Stream) : List Chunk := stream.chunks.flatMap Chunk.pieces

/-- Code that is joined to the code before it is still one piece a byte. -/
theorem flatMap_pieces_appendCode (chunks : List Chunk) (bytes : Bytes) :
  (appendCode chunks bytes).flatMap Chunk.pieces
    = chunks.flatMap Chunk.pieces ++ bytes.map fun byte => .code [byte]
  := by
  fun_induction appendCode chunks bytes with
  | case1 bytes h =>
    rw [List.isEmpty_iff.mp h]
    rfl
  | case2 bytes h => simp [Chunk.pieces]
  | case3 bytes run => simp [Chunk.pieces]
  | case4 chunk rest bytes _ ih => rw [List.flatMap_cons, List.flatMap_cons, ih, List.append_assoc]

/-- Written code adds one piece a byte. -/
@[simp]
theorem pieces_code (stream : Stream) (bytes : Bytes) :
  (stream.code bytes).pieces = stream.pieces ++ bytes.map fun byte => .code [byte]
  := flatMap_pieces_appendCode stream.chunks bytes

/-- Placing a target adds its mark. -/
@[simp]
theorem pieces_place (stream : Stream) (target : Target) :
  (stream.place target).pieces = stream.pieces ++ [.mark target]
  := by
  simp [pieces, place, Chunk.pieces]

/-- A jump or an address adds a record. -/
@[simp]
theorem pieces_addRecord (stream : Stream) (kind : RecordKind) (target : Target) (bytes : Bytes) :
  (stream.addRecord kind target bytes).pieces
    = stream.pieces ++ [.record { kind, target, bytes }]
  := by
  simp [pieces, addRecord, Chunk.pieces]

end Stream

/-! ### Plain computations -/

namespace Emit

/-- The stream begins with the given pieces. -/
def Begins (front : List Chunk) (draft : Draft) : Prop := front <+: draft.stream.pieces

theorem Begins.refl (draft : Draft) :
  Begins draft.stream.pieces draft
  := List.prefix_refl _

/-- What a draft begins with, any draft begins with that goes on from it. -/
theorem Begins.trans {front : List Chunk} {d d' : Draft} (h : Begins front d)
    (h' : Begins d.stream.pieces d') :
  Begins front d'
  := List.IsPrefix.trans h h'

/-- What a computation does to what is written and to what is around the statement at hand: with
`nest` around it, it adds to the stream and leaves `nest'` behind, and it fails only with causes of
a given sort. -/
structure Plain (p : Cause → Prop) (nest nest' : Nest) {α : Type} (x : Emit α) : Prop where
  adds : ∀ {d d' : Draft} {a : α}, d.nest = nest → Yields x d a d' → Begins d.stream.pieces d'
  leaves : ∀ {d d' : Draft} {a : α}, d.nest = nest → Yields x d a d' → d'.nest = nest'
  fails : ∀ {d d' : Draft} {fault : Fault}, d.nest = nest → Fails x d fault d' → p fault.cause

/-- Such a computation, which may fail with any cause. -/
abbrev Writes (nest nest' : Nest) {α : Type} (x : Emit α) : Prop :=
  Plain (fun _ => True) nest nest' x

namespace Plain

variable {p : Cause → Prop} {α β : Type} {nest nest' nest'' : Nest}

theorem pure (a : α) :
  Plain p nest nest (pure a : Emit α)
  where
  adds _ hyields := by
    obtain ⟨_, rfl⟩ := yields_pure.mp hyields
    exact .refl _
  leaves hnest hyields := by
    obtain ⟨_, rfl⟩ := yields_pure.mp hyields
    exact hnest
  fails _ hfails := by cases hfails

/-- One part and then another. Only results that can come about are followed. -/
theorem bind {x : Emit α} {f : α → Emit β} (hx : Plain p nest nest' x)
    (hf : ∀ a, (∃ d d', Yields x d a d') → Plain p nest' nest'' (f a)) :
  Plain p nest nest'' (x >>= f)
  where
  adds {d _ _} hnest hyields := by
    obtain ⟨a, m, hfirst, hsecond⟩ := yields_bind.mp hyields
    exact (hx.adds hnest hfirst).trans
      ((hf a ⟨d, m, hfirst⟩).adds (hx.leaves hnest hfirst) hsecond)
  leaves {d _ _} hnest hyields := by
    obtain ⟨a, m, hfirst, hsecond⟩ := yields_bind.mp hyields
    exact (hf a ⟨d, m, hfirst⟩).leaves (hx.leaves hnest hfirst) hsecond
  fails {d _ _} hnest hfails := by
    rcases fails_bind.mp hfails with hfirst | ⟨a, m, hfirst, hsecond⟩
    · exact hx.fails hnest hfirst
    · exact (hf a ⟨d, m, hfirst⟩).fails (hx.leaves hnest hfirst) hsecond

/-- One part and then another, each with its own nest. -/
theorem andThen {x y : Emit Unit} (hx : Plain p nest nest' x) (hy : Plain p nest' nest'' y) :
  Plain p nest nest'' (do x; y)
  := .bind hx fun _ _ => hy

/-- A failure is plain if its cause is admitted. -/
theorem throw {fault : Fault} (h : p fault.cause) :
  Plain p nest nest' (throw fault : Emit α)
  where
  adds _ hyields := by cases hyields
  leaves _ hyields := by cases hyields
  fails _ hfails := by
    cases hfails
    exact h

/-- A change of the draft is plain if it only adds to the stream and leaves the nest as told. -/
theorem modify {f : Draft → Draft} (hf : ∀ d, Begins d.stream.pieces (f d))
    (hnest : ∀ d, d.nest = nest → (f d).nest = nest') :
  Plain p nest nest' (modify f : Emit Unit)
  where
  adds {d _ _} _ hyields := by
    obtain rfl := yields_modify.mp hyields
    exact hf d
  leaves {d _ _} h hyields := by
    obtain rfl := yields_modify.mp hyields
    exact hnest d h
  fails _ hfails := by cases hfails

/-- A change of the stream is plain if it only adds to it. -/
theorem edit {f : Stream → Stream} (hf : ∀ stream, stream.pieces <+: (f stream).pieces) :
  Plain p nest nest (edit f)
  := modify (fun d => hf d.stream) fun _ h => h

theorem code (bytes : Bytes) :
  Plain p nest nest (code bytes)
  := edit fun stream => ⟨_, (stream.pieces_code bytes).symm⟩

theorem opcode (byte : UInt8) :
  Plain p nest nest (opcode byte)
  := code [byte]

theorem place (target : Target) :
  Plain p nest nest (place target)
  := edit fun stream => ⟨_, (stream.pieces_place target).symm⟩

theorem jump (byte : UInt8) (target : Target) :
  Plain p nest nest (jump byte target)
  := edit fun stream => ⟨_, (stream.pieces_addRecord ..).symm⟩

theorem offset (target : Target) :
  Plain p nest nest (offset target)
  := edit fun stream => ⟨_, (stream.pieces_addRecord ..).symm⟩

theorem newTarget :
  Plain p nest nest newTarget
  where
  adds _ hyields := by
    cases hyields
    exact .refl _
  leaves hnest hyields := by
    cases hyields
    exact hnest
  fails _ hfails := by cases hfails

theorem string (text : String) :
  Plain p nest nest (string text)
  := .bind .newTarget fun _ _ => .andThen
    (.edit fun stream => ⟨_, (stream.pieces_addRecord ..).symm⟩) (.modify .refl fun _ h => h)

theorem warn (pos : Pos) (text : String) :
  Plain p nest nest (warn pos text)
  := modify .refl fun _ h => h

/-- An evaluation writes nothing, so it is plain if it fails for admitted causes only. -/
theorem evaluate {x : Eval α} (hx : FailsOnly p x) :
  Plain p nest nest (evaluate x)
  where
  adds _ hyields := by
    obtain ⟨memo, _, rfl⟩ := yields_evaluate.mp hyields
    exact .refl _
  leaves hnest hyields := by
    obtain ⟨memo, _, rfl⟩ := yields_evaluate.mp hyields
    exact hnest
  fails _ hfails := hx _ _ _ (Prod.ext (Prod.ext_iff.mp hfails).1 rfl)

/-- An evaluation that may fail in silence is always plain. -/
theorem evaluate? (x : Eval α) :
  Plain p nest nest (evaluate? x)
  where
  adds _ hyields := by
    obtain ⟨memo, rfl⟩ := yields_evaluate? hyields
    exact .refl _
  leaves hnest hyields := by
    obtain ⟨memo, rfl⟩ := yields_evaluate? hyields
    exact hnest
  fails _ hfails := by
    obtain ⟨_, _, _, hpure⟩ := fails_tryCatch.mp hfails
    cases hpure

/-- Parts that leave the nest alone are plain in turn. -/
theorem forM {ι : Type} {f : ι → Emit Unit} {items : List ι}
    (h : ∀ item ∈ items, Plain p nest nest (f item)) :
  Plain p nest nest (items.forM f)
  := by
  induction items with
  | nil => exact .pure ()
  | cons item rest ih =>
    obtain ⟨hitem, hrest⟩ := List.forall_mem_cons.mp h
    exact .andThen hitem (ih hrest)

theorem mapM_newTarget {ι : Type} (items : List ι) :
  Plain p nest nest (items.mapM fun _ => Emit.newTarget)
  := by
  induction items with
  | nil => exact .pure []
  | cons item rest ih =>
    rw [List.mapM_cons]
    exact .bind .newTarget fun _ _ => .bind ih fun _ _ => .pure _

/-- A change of the nest is all that happens. -/
theorem modifyNest (f : Nest → Nest) :
  Plain p nest (f nest) (modifyNest f)
  := modify .refl fun _ h => congrArg f h

/-- Whatever a part leaves behind, what was around it is there again. -/
theorem restoring {part : Emit Unit} (h : Plain p nest nest' part) :
  Plain p nest nest (restoring part)
  where
  adds hnest hyields := by
    obtain ⟨m, hpart, rfl⟩ := yields_restoring.mp hyields
    exact (h.adds hnest hpart :)
  leaves hnest hyields := by
    obtain ⟨m, hpart, rfl⟩ := yields_restoring.mp hyields
    exact hnest
  fails hnest hfails := by
    obtain ⟨m, hpart, _⟩ := fails_restoring.mp hfails
    exact h.fails hnest hpart

/-- A step that keeps what is around it may be taken before the part. -/
theorem restoring_bind {x : Emit α} {f : α → Emit Unit} (hx : Plain p nest nest x)
    (hf : ∀ a, Plain p nest nest (Emit.restoring (f a))) :
  Plain p nest nest (Emit.restoring (x >>= f))
  where
  adds hnest hyields := by
    obtain ⟨m, hpart, rfl⟩ := yields_restoring.mp hyields
    obtain ⟨a, m', hfirst, hsecond⟩ := yields_bind.mp hpart
    have hrest := yields_restoring.mpr ⟨m, hsecond, rfl⟩
    exact ((hx.adds hnest hfirst).trans ((hf a).adds (hx.leaves hnest hfirst) hrest) :)
  leaves hnest hyields := by
    obtain ⟨m, hpart, rfl⟩ := yields_restoring.mp hyields
    exact hnest
  fails hnest hfails := by
    obtain ⟨m, hpart, _⟩ := fails_restoring.mp hfails
    rcases fails_bind.mp hpart with hfirst | ⟨a, m', hfirst, hsecond⟩
    · exact hx.fails hnest hfirst
    · exact (hf a).fails (hx.leaves hnest hfirst) (fails_restoring.mpr ⟨m, hsecond, rfl⟩)

end Plain

/-- What is written in step is plain, and asks for no enclosing loop. -/
theorem InStep.plain {p : Cause → Prop} (hp : ∀ {cause}, cause ≠ .noEnclosingLoop → p cause)
    {α : Type} {V : α → α → Prop} {x y : Emit α} (h : InStep V x y) {nest : Nest} :
  Plain p nest nest x
  := by
  induction h with
  | pure => exact .pure _
  | bind hxy _ hx hf =>
    refine .bind hx ?_
    rintro a ⟨d, d', hyields⟩
    obtain ⟨b, hab⟩ := hxy.parallel.exists_of_yields hyields
    exact hf a b hab
  | throw _ hloop => exact .throw (hp hloop)
  | code bytes => exact .code bytes
  | string text => exact .string text
  | warn pos text => exact .warn pos text
  | evaluate _ hfails => exact .evaluate (hfails.mono fun h => hp (by rintro rfl; exact h))
  | evaluate? => exact .evaluate? _
  | answered _ hx =>
    exact .bind .newTarget fun done _ => .andThen (.offset done) (.andThen hx (.place done))

end Emit

/-! ### Holes -/

/-- The statement for a way to leave a pass. -/
def Leave.stmt (leave : Leave) (pos : Pos) : Stmt :=
  match leave with
  | .next => .next pos
  | .quit => .quit pos

/-- A statement around a block, without the block. -/
inductive Layer where
  | yes (pos : Pos) (negated : Bool) (condition : Exp) (no : Option (List Stmt))
  | no (pos : Pos) (negated : Bool) (condition : Exp) (yes : List Stmt)
  | loop (pos : Pos) (control : LoopControl)
  | arm (pos : Pos) (value : Exp) (front : List Arm) (tests : List (Range Exp)) (back : List Arm)
      (other : List Stmt)
  | other (pos : Pos) (value : Exp) (arms : List Arm)

/-- The statement around a block. -/
def Layer.wrap (layer : Layer) (body : List Stmt) : Stmt :=
  match layer with
  | .yes pos negated condition otherwise => .branch pos negated condition body otherwise
  | .no pos negated condition first => .branch pos negated condition first (some body)
  | .loop pos control => .loop pos control body
  | .arm pos value front tests back default =>
    .select pos value (front ++ .mk tests body :: back) default
  | .other pos value arms => .select pos value arms body

/-- What is around a block: the innermost loop, and the number of CASEs inside it. -/
structure Around where
  loop : Option LoopControl := none
  cases : Nat := 0

/-- What is around a block inside a statement. -/
def Layer.enter (layer : Layer) (around : Around) : Around :=
  match layer with
  | .yes _ _ _ _ | .no _ _ _ _ => around
  | .loop _ control => { loop := some control }
  | .arm _ _ _ _ _ _ | .other _ _ _ => { around with cases := around.cases + 1 }

/-- A place for one statement in a block, among other statements and at any depth. -/
inductive Hole where
  | here (before after : List Stmt)
  | inside (before : List Stmt) (layer : Layer) (hole : Hole) (after : List Stmt)

namespace Hole

/-- The block with a statement in the hole. -/
def fill : Hole → Stmt → List Stmt
  | here before after, statement => before ++ statement :: after
  | inside before layer hole after, statement =>
    before ++ layer.wrap (hole.fill statement) :: after

/-- What is around a hole, in a block around which there is something already. -/
def around : Hole → Around → Around
  | here _ _, outer => outer
  | inside _ layer hole _, outer => hole.around (layer.enter outer)

/-- The hole in a block with more statements at both ends. -/
def pad (front back : List Stmt) : Hole → Hole
  | here before after => here (front ++ before) (after ++ back)
  | inside before layer hole after => inside (front ++ before) layer hole (after ++ back)

/-- Statements around a hole stand around what fills it. -/
theorem fill_pad (front back : List Stmt) (hole : Hole) (statement : Stmt) :
  (hole.pad front back).fill statement = front ++ hole.fill statement ++ back
  := by
  cases hole <;> simp [pad, fill]

/-- Statements beside a hole do not surround it. -/
theorem around_pad (front back : List Stmt) (hole : Hole) (outer : Around) :
  (hole.pad front back).around outer = hole.around outer
  := by
  cases hole <;> rfl

/-- A loop around the hole is one of the block or one around the block. -/
theorem around_loop_eq_none {hole : Hole} {outer : Around} :
  (hole.around outer).loop = none ↔ (hole.around {}).loop = none ∧ outer.loop = none
  := by
  induction hole generalizing outer with
  | here => simp [around]
  | inside before layer hole after ih =>
    rw [around, around, ih]
    rw [@ih (layer.enter {})]
    cases layer <;> simp [Layer.enter]

end Hole

/-- Every NEXT and QUIT of a block has a loop around it, in the block or around the block. -/
def Stmt.Enclosed (looped : Bool) (body : List Stmt) : Prop :=
  ∀ (hole : Hole) (leave : Leave) (pos : Pos), body = hole.fill (leave.stmt pos) →
    (hole.around {}).loop = none → looped = true

namespace Stmt.Enclosed

variable {looped : Bool}

/-- A part of a block. -/
theorem part (front : List Stmt) {body : List Stmt} (back : List Stmt)
    (h : Enclosed looped (front ++ body ++ back)) :
  Enclosed looped body
  := by
  rintro hole leave pos rfl hloop
  apply h (hole.pad front back) leave pos (Hole.fill_pad ..).symm
  rw [Hole.around_pad, hloop]

/-- The block inside a statement that is not a loop. -/
theorem inside (layer : Layer) {body : List Stmt} (h : Enclosed looped [layer.wrap body])
    (hlayer : (layer.enter {}).loop = none) :
  Enclosed looped body
  := by
  rintro hole leave pos rfl hloop
  apply h (.inside [] layer hole []) leave pos rfl
  rw [Hole.around, Hole.around_loop_eq_none]
  exact ⟨hloop, hlayer⟩

/-- A loop is enough for all that is inside it. -/
theorem of_looped (body : List Stmt) :
  Enclosed true body
  := fun _ _ _ _ _ => rfl

end Stmt.Enclosed

/-! ### Statements are plain -/

/-- There is a loop around. -/
def Nest.looped (nest : Nest) : Bool := nest.next.isSome && nest.quit.isSome

section

open Emit

variable {p : Cause → Prop} {nest : Nest}

namespace Leave

/-- In a loop, both ways to leave it have a target. -/
theorem isSome_target? {nest : Nest} (h : nest.looped = true) (leave : Leave) :
  (leave.target? nest).isSome = true
  := by
  rw [Nest.looped, Bool.and_eq_true] at h
  cases leave with
  | next => exact h.1
  | quit => exact h.2

/-- Leaving a loop is plain: it fails for want of a loop only. -/
theorem exit_plain (leave : Leave) (pos : Pos)
    (h : nest.looped = true ∨ p .noEnclosingLoop) :
  Plain p nest nest (leave.exit nest pos)
  := by
  rw [exit]
  cases htarget : leave.target? nest with
  | none =>
    refine .throw (h.resolve_left fun hlooped => ?_)
    have hsome := isSome_target? hlooped leave
    rw [htarget] at hsome
    cases hsome
  | some target =>
    dsimp only
    split_ifs
    · exact .andThen (.code _) (.andThen (.opcode _) (.jump ..))
    · exact .jump ..

/-- What a statement that leaves a pass finds around it decides what it is written as. -/
theorem run_emit (leave : Leave) (pos : Pos) (d : Draft) :
  (leave.emit pos).run.run d = (leave.exit d.nest pos).run.run d
  := rfl

/-- A statement that leaves a loop finds the nest in the draft, and leaves it there. -/
theorem emit_plain (leave : Leave) (pos : Pos)
    (h : nest.looped = true ∨ p .noEnclosingLoop) :
  Plain p nest nest (leave.emit pos)
  where
  adds := by
    rintro d d' a rfl hyields
    rw [Yields, run_emit] at hyields
    exact (leave.exit_plain pos h).adds rfl hyields
  leaves := by
    rintro d d' a rfl hyields
    rw [Yields, run_emit] at hyields
    exact (leave.exit_plain pos h).leaves rfl hyields
  fails := by
    rintro d d' fault rfl hfails
    rw [Fails, run_emit] at hfails
    exact (leave.exit_plain pos h).fails rfl hfails

end Leave

namespace Site

variable (hp : ∀ {cause}, cause ≠ .noEnclosingLoop → p cause) (site : Site)

include hp

/-- Leaving a method, with a value or without, is plain. -/
theorem leaveMethod_plain (bare : UInt8) (value : Option Exp) :
  Plain p nest nest (site.leaveMethod bare value)
  := by
  cases value with
  | none => exact .opcode bare
  | some e => exact .andThen ((Exp.push_inStep rfl e).plain hp) (.opcode _)

theorem builtin_plain (byte : UInt8) (args : List Exp) :
  Plain p nest nest (site.builtin byte args)
  := .andThen (.forM fun e _ => (Exp.push_inStep rfl e).plain hp) (.opcode byte)

/-- A branch is plain if its parts are. -/
theorem branch_plain (negated : Bool) (condition : Exp) {yes : Emit Unit}
    {no : Option (Emit Unit)} (hyes : Plain p nest nest yes)
    (hno : ∀ part, no = some part → Plain p nest nest part) :
  Plain p nest nest (site.branch negated condition yes no)
  := by
  refine .andThen ((Exp.push_inStep rfl condition).plain hp) ?_
  refine .bind .newTarget fun otherwise _ => .andThen (.jump ..) (.andThen hyes ?_)
  cases no with
  | none => exact .place otherwise
  | some part =>
    refine .bind .newTarget fun done _ => .andThen (.jump ..) ?_
    exact .andThen (.place otherwise) (.andThen (hno part rfl) (.place done))

/-- The passes of a loop are plain if its body is, inside the nest of the loop. -/
theorem passes_plain (loop : Loop) (control : LoopControl) {body : Emit Unit}
    (hbody : Plain p nest nest body) :
  Plain p nest nest (site.passes loop control body)
  := by
  have hpush : ∀ e : Exp, Plain p nest nest (e.push site) := fun e =>
    (Exp.push_inStep rfl e).plain hp
  cases control with
  | forever => exact .andThen (.place _) (.andThen hbody (.jump ..))
  | times count =>
    refine .andThen (hpush count) (.andThen (.jump ..) ?_)
    refine .bind .newTarget fun top _ => .andThen (.place top) ?_
    exact .andThen hbody (.andThen (.place _) (.jump ..))
  | before negated condition =>
    refine .andThen (.place _) (.andThen (hpush condition) ?_)
    exact .andThen (.jump ..) (.andThen hbody (.jump ..))
  | after negated condition =>
    refine .bind .newTarget fun top _ => .andThen (.place top) (.andThen hbody ?_)
    exact .andThen (.place _) (.andThen (hpush condition) (.jump ..))
  | fromTo counter first last step =>
    have haccess : ∀ access, Plain p nest nest (counter.access site access) := fun access =>
      (Exp.access_inStep rfl counter access).plain hp
    refine .bind .newTarget fun top _ => .andThen (hpush first) (.andThen (haccess .store) ?_)
    refine .andThen (.place top) (.andThen hbody (.andThen (.place _) ?_))
    have hrange := Plain.andThen (hpush first)
      (.andThen (hpush last) (.andThen (haccess .modify)
        (.jump (if step.isSome then 0x06 else 0x02) top)))
    cases step with
    | none => exact hrange
    | some e => exact .andThen (hpush e) hrange

/-- The body of a loop finds the loop around it; behind the loop there is what was there before. -/
theorem loop_plain (control : LoopControl) {body : Emit Unit}
    (hbody : ∀ loop : Loop, Plain p loop.nest loop.nest body) :
  Plain p nest nest (site.loop control body)
  := by
  refine .restoring_bind .newTarget fun next => .restoring_bind .newTarget fun quit => ?_
  exact .restoring (.andThen (.modifyNest _)
    (.andThen (passes_plain hp site _ control (hbody _)) (.place quit)))

theorem armTests_plain (tests : List (Range Exp)) (target : Target) :
  Plain p nest nest (site.armTests tests target)
  := by
  apply Plain.forM
  intro item hitem
  obtain ⟨_, hstep⟩ := Exp.inStep_of_mem_rangeCodes hitem
  cases hstep with
  | single hcode => exact .andThen (hcode.push.plain hp) (.jump ..)
  | span hlow hhigh =>
    exact .andThen (hlow.push.plain hp) (.andThen (hhigh.push.plain hp) (.jump ..))

/-- A selection is plain if its arms are. -/
theorem select_plain (value : Exp) {arms : List (List (Range Exp) × Emit Unit)}
    (harms : ∀ arm ∈ arms, Plain p nest nest arm.2) {other : Emit Unit}
    (hother : Plain p nest nest other) :
  Plain p nest nest (site.select value arms other)
  := by
  refine .bind .newTarget fun done _ => .andThen (.offset done) ?_
  refine .andThen ((Exp.push_inStep rfl value).plain hp) ?_
  refine .bind (.mapM_newTarget arms) fun made _ => ?_
  refine .andThen (.forM fun pair _ => armTests_plain hp site _ _) ?_
  refine .andThen hother (.andThen (.opcode _) (.andThen (.forM ?_) (.place done)))
  rintro ⟨arm, target⟩ hmem
  exact .andThen (.place target) (.andThen (harms arm (List.of_mem_zip hmem).1) (.opcode _))

/-- The parts of a CASE find one CASE more around them. -/
theorem cases_plain (value : Exp) {arms : List (List (Range Exp) × Emit Unit)}
    (harms : ∀ arm ∈ arms, Plain p nest.deeper nest.deeper arm.2) {other : Emit Unit}
    (hother : Plain p nest.deeper nest.deeper other) :
  Plain p nest nest (site.cases value arms other)
  := .andThen (.modifyNest Nest.deeper)
    (.andThen (select_plain hp site value harms hother) (.modifyNest Nest.shallower))

end Site

mutual

/-- A statement is plain, and leaves behind what it finds around it; if all its exits have a loop,
it asks for no more. -/
theorem Stmt.emit_plain (hp : ∀ {cause}, cause ≠ .noEnclosingLoop → p cause) (site : Site)
    (nest : Nest) :
    ∀ statement : Stmt, Stmt.Enclosed nest.looped [statement] ∨ p .noEnclosingLoop →
      Plain p nest nest (statement.emit site)
  | .exp _ e, _ => by
    rw [Stmt.emit]
    exact (Exp.run_inStep rfl e).plain hp
  | .ret _ value, _ | .abort _ value, _ => by
    rw [Stmt.emit]
    apply site.leaveMethod_plain hp
  | .branch pos negated condition yes none, h => by
    rw [Stmt.emit]
    apply site.branch_plain hp
    · apply Stmt.block_plain hp site nest yes
      exact h.imp_left fun h => Stmt.Enclosed.inside (.yes pos negated condition none) h rfl
    · rintro _ ⟨⟩
  | .branch pos negated condition yes (some no), h => by
    rw [Stmt.emit]
    apply site.branch_plain hp
    · apply Stmt.block_plain hp site nest yes
      exact h.imp_left fun h => Stmt.Enclosed.inside (.yes pos negated condition (some no)) h rfl
    · rintro _ ⟨⟩
      apply Stmt.block_plain hp site nest no
      exact h.imp_left fun h => Stmt.Enclosed.inside (.no pos negated condition yes) h rfl
  | .loop _ control body, _ => by
    rw [Stmt.emit]
    apply site.loop_plain hp
    intro loop
    exact Stmt.block_plain hp site _ body (.inl (Stmt.Enclosed.of_looped body))
  | .next pos, h => by
    rw [Stmt.emit]
    exact Leave.emit_plain .next pos (h.imp_left fun h => h (.here [] []) .next pos rfl rfl)
  | .quit pos, h => by
    rw [Stmt.emit]
    exact Leave.emit_plain .quit pos (h.imp_left fun h => h (.here [] []) .quit pos rfl rfl)
  | .select pos value arms other, h => by
    rw [Stmt.emit]
    apply site.cases_plain hp
    · apply Stmt.arms_plain hp site _ arms
      rintro front tests body back rfl
      exact h.imp_left fun h => Stmt.Enclosed.inside (.arm pos value front tests back other) h rfl
    · apply Stmt.block_plain hp site _ other
      exact h.imp_left fun h => Stmt.Enclosed.inside (.other pos value arms) h rfl
  | .reboot _, _ => by
    rw [Stmt.emit]
    exact .code _
  | .fillMove _ _ _, _ | .wait _ _ _, _ | .clkset _ _ _, _ | .cogstop _ _, _ => by
    rw [Stmt.emit]
    apply site.builtin_plain hp

/-- A block leaves behind what it finds around it, as its statements do. -/
theorem Stmt.block_plain (hp : ∀ {cause}, cause ≠ .noEnclosingLoop → p cause) (site : Site)
    (nest : Nest) :
    ∀ body : List Stmt, Stmt.Enclosed nest.looped body ∨ p .noEnclosingLoop →
      Plain p nest nest (Stmt.block site body)
  | [], _ => .pure ()
  | statement :: rest, h => by
    rw [Stmt.block]
    apply Plain.andThen
    · apply Stmt.emit_plain hp site nest statement
      exact h.imp_left (Stmt.Enclosed.part [] rest)
    · apply Stmt.block_plain hp site nest rest
      exact h.imp_left fun h => Stmt.Enclosed.part [statement] [] (by rwa [List.append_nil])

/-- The code of every arm leaves behind what it finds around it. -/
theorem Stmt.arms_plain (hp : ∀ {cause}, cause ≠ .noEnclosingLoop → p cause) (site : Site)
    (nest : Nest) :
    ∀ arms : List Arm, (∀ front tests body back, arms = front ++ .mk tests body :: back →
        Stmt.Enclosed nest.looped body ∨ p .noEnclosingLoop) →
      ∀ arm ∈ Stmt.arms site arms, Plain p nest nest arm.2
  | [], _ => nofun
  | .mk tests body :: rest, h => by
    rw [Stmt.arms, List.forall_mem_cons]
    constructor
    · exact Stmt.block_plain hp site nest body (h [] tests body rest rfl)
    · apply Stmt.arms_plain hp site nest rest
      intro front tests' body' back hrest
      exact h (.mk tests body :: front) tests' body' back (by rw [hrest, List.cons_append])

end

end

/-! ### Opening a hole -/

/-- The loop keeps a counter on the stack. -/
def LoopControl.isCounted : LoopControl → Bool
  | .times _ => true
  | _ => false

/-- The piece that a loop begins with, if the next pass starts there. -/
def LoopControl.head (loop : Loop) : LoopControl → List Chunk
  | .forever | .before _ _ => [.mark loop.next]
  | .times _ | .after _ _ | .fromTo _ _ _ _ => []

/-- The piece behind the body of a loop, if the next pass starts there. -/
def LoopControl.tail (loop : Loop) : LoopControl → List Chunk
  | .forever | .before _ _ => []
  | .times _ | .after _ _ | .fromTo _ _ _ _ => [.mark loop.next]

/-- Writes a loop up to its body, and says what follows the body. -/
def LoopControl.opening (site : Site) (loop : Loop) : LoopControl → Emit (Emit Unit)
  | .forever => do
    Emit.place loop.next
    return Emit.jump Jump.always loop.next
  | .times count => do
    count.push site
    Emit.jump 0x08 loop.quit
    let top ← Emit.newTarget
    Emit.place top
    return do
      Emit.place loop.next
      Emit.jump 0x09 top
  | .before negated condition => do
    Emit.place loop.next
    condition.push site
    Emit.jump (Jump.onFailure negated) loop.quit
    return Emit.jump Jump.always loop.next
  | .after negated condition => do
    let top ← Emit.newTarget
    Emit.place top
    return do
      Emit.place loop.next
      condition.push site
      Emit.jump (Jump.onFailure !negated) top
  | .fromTo counter first last step => do
    let top ← Emit.newTarget
    first.push site
    counter.access site .store
    Emit.place top
    return do
      Emit.place loop.next
      match step with
      | some e => e.push site
      | none => pure ()
      first.push site
      last.push site
      counter.access site .modify
      Emit.jump (if step.isSome then 0x06 else 0x02) top

/-- The passes of a loop split into what stands before its body, the body, and the rest. -/
theorem Site.passes_eq (site : Site) (loop : Loop) (control : LoopControl) (body : Emit Unit) :
  site.passes loop control body = (do
    let rest ← control.opening site loop
    body
    rest)
  := by
  cases control with
  | forever | times | before | after =>
    simp only [passes, LoopControl.opening, bind_assoc, pure_bind]
  | fromTo counter first last step =>
    cases step <;> simp only [passes, LoopControl.opening, bind_assoc, pure_bind]

/-- The tests of arms. -/
def Site.testArms (site : Site) (arms : List (List (Range Exp) × Emit Unit))
    (targets : List Target) : Emit Unit :=
  (arms.zip targets).forM fun (arm, target) => site.armTests arm.1 target

/-- The bodies of arms. -/
def Site.writeArms (arms : List (List (Range Exp) × Emit Unit)) (targets : List Target) :
    Emit Unit :=
  (arms.zip targets).forM fun (arm, target) => Site.armBody arm.2 target

/-- Writes a statement up to the block inside it, and says what follows the block. -/
def Layer.opening (site : Site) : Layer → Emit (Emit Unit)
  | .yes _ negated condition otherwise => do
    condition.push site
    let skip ← Emit.newTarget
    Emit.jump (Jump.onFailure negated) skip
    return match otherwise with
      | none => Emit.place skip
      | some part => do
        let done ← Emit.newTarget
        Emit.jump Jump.always done
        Emit.place skip
        Stmt.block site part
        Emit.place done
  | .no _ negated condition first => do
    condition.push site
    let skip ← Emit.newTarget
    Emit.jump (Jump.onFailure negated) skip
    Stmt.block site first
    let done ← Emit.newTarget
    Emit.jump Jump.always done
    Emit.place skip
    return Emit.place done
  | .loop _ control => do
    let outer ← get
    let next ← Emit.newTarget
    let quit ← Emit.newTarget
    let loop : Loop := { next, quit, counted := control.isCounted }
    Emit.modifyNest fun _ => loop.nest
    let rest ← control.opening site loop
    return do
      rest
      Emit.place quit
      Emit.modifyNest fun _ => outer.nest
  | .arm _ value front tests back default => do
    let fronts := Stmt.arms site front
    let backs := Stmt.arms site back
    Emit.modifyNest Nest.deeper
    let done ← Emit.newTarget
    Emit.offset done
    value.push site
    let before ← fronts.mapM fun _ => Emit.newTarget
    let target ← Emit.newTarget
    let after ← backs.mapM fun _ => Emit.newTarget
    site.testArms fronts before
    site.armTests tests target
    site.testArms backs after
    Stmt.block site default
    Emit.opcode caseDone
    Site.writeArms fronts before
    Emit.place target
    return do
      Emit.opcode caseDone
      Site.writeArms backs after
      Emit.place done
      Emit.modifyNest Nest.shallower
  | .other _ value arms => do
    let all := Stmt.arms site arms
    Emit.modifyNest Nest.deeper
    let done ← Emit.newTarget
    Emit.offset done
    value.push site
    let targets ← all.mapM fun _ => Emit.newTarget
    site.testArms all targets
    return do
      Emit.opcode caseDone
      Site.writeArms all targets
      Emit.place done
      Emit.modifyNest Nest.shallower

/-- Only results that can come about matter to what follows. -/
theorem bind_congr_of_yields {σ α β : Type} {x : ExceptT Fault (StateM σ) α}
    {f g : α → ExceptT Fault (StateM σ) β} (h : ∀ s a s', Yields x s a s' → f a = g a) :
  x >>= f = x >>= g
  := by
  apply ExceptT.ext
  apply StateT.ext
  intro s
  rw [run_bind, run_bind]
  rcases hx : x.run.run s with ⟨fault | a, s'⟩
  · rfl
  · dsimp only
    rw [h s a s' hx]

/-- Two computations yield the same. They may fail in different drafts. -/
def Emit.Alike {α : Type} (x y : Emit α) : Prop :=
  ∀ d a d', Yields x d a d' ↔ Yields y d a d'

namespace Emit.Alike

variable {α β : Type}

theorem refl (x : Emit α) :
  Alike x x
  := fun _ _ _ => .rfl

theorem trans {x y z : Emit α} (h : Alike x y) (h' : Alike y z) :
  Alike x z
  := fun d a d' => (h d a d').trans (h' d a d')

/-- Computations that do alike do alike in turn. -/
theorem bind {x y : Emit α} {f g : α → Emit β} (hx : Alike x y) (hf : ∀ a, Alike (f a) (g a)) :
  Alike (x >>= f) (y >>= g)
  := by
  intro d b d'
  rw [yields_bind, yields_bind]
  constructor
  · rintro ⟨a, m, hfirst, hsecond⟩
    exact ⟨a, m, (hx d a m).mp hfirst, (hf a m b d').mp hsecond⟩
  · rintro ⟨a, m, hfirst, hsecond⟩
    exact ⟨a, m, (hx d a m).mpr hfirst, (hf a m b d').mpr hsecond⟩

/-- To restore is to put back what was there before. -/
theorem restoring (part : Emit Unit) :
  Alike (restoring part) (do
    let outer ← get
    part
    modifyNest fun _ => outer.nest)
  := by
  intro d u d'
  rw [yields_restoring]
  constructor
  · rintro ⟨m, hpart, rfl⟩
    exact yields_bind.mpr ⟨d, d, rfl, yields_bind.mpr ⟨u, m, hpart, rfl⟩⟩
  · intro h
    obtain ⟨_, _, hget, h⟩ := yields_bind.mp h
    cases hget
    obtain ⟨_, m, hpart, hput⟩ := yields_bind.mp h
    cases hput
    exact ⟨m, hpart, rfl⟩

end Emit.Alike

/-- Arms are written one by one. -/
theorem Stmt.arms_append (site : Site) (front back : List Arm) :
  Stmt.arms site (front ++ back) = Stmt.arms site front ++ Stmt.arms site back
  := by
  induction front with
  | nil => rfl
  | cons arm rest ih =>
    cases arm with
    | mk tests body => rw [List.cons_append, Stmt.arms, Stmt.arms, ih, List.cons_append]

/-- A block inside a statement is written where the opening of the statement ends. -/
theorem Layer.emit_wrap (site : Site) (layer : Layer) (body : List Stmt) :
  Emit.Alike ((layer.wrap body).emit site) (do
    let rest ← layer.opening site
    Stmt.block site body
    rest)
  := by
  cases layer with
  | yes pos negated condition otherwise =>
    cases otherwise with
    | none =>
      rw [Layer.wrap, Stmt.emit]
      simp only [Site.branch, Layer.opening, bind_assoc, pure_bind]
      exact .refl _
    | some part =>
      rw [Layer.wrap, Stmt.emit]
      simp only [Site.branch, Layer.opening, bind_assoc, pure_bind]
      exact .refl _
  | no pos negated condition first =>
    rw [Layer.wrap, Stmt.emit]
    simp only [Site.branch, Layer.opening, bind_assoc, pure_bind]
    exact .refl _
  | loop pos control =>
    rw [Layer.wrap, Stmt.emit]
    refine (Emit.Alike.restoring _).trans ?_
    simp only [Site.passes_eq, Layer.opening, bind_assoc, pure_bind]
    exact .refl _
  | arm pos value front tests back default =>
    rw [Layer.wrap, Stmt.emit, Stmt.arms_append, Stmt.arms]
    simp only [Site.cases, Site.select, Layer.opening, List.mapM_append, List.mapM_cons, bind_assoc,
      pure_bind]
    refine .bind (.refl _) fun _ => .bind (.refl _) fun done => .bind (.refl _) fun _ => ?_
    refine .bind (.refl _) fun _ => ?_
    rw [bind_congr_of_yields]
    · exact .refl _
    intro _ before _ hbefore
    refine bind_congr fun target => bind_congr fun after => ?_
    rw [List.zip_append (length_of_mapM hbefore).symm, List.zip_cons_cons]
    simp only [List.forM_eq_forM, List.forM_append, List.forM_cons, Site.testArms, Site.writeArms,
      Site.armBody, bind_assoc]
  | other pos value arms =>
    rw [Layer.wrap, Stmt.emit]
    simp only [Site.cases, Site.select, Site.testArms, Site.writeArms, Layer.opening, bind_assoc,
      pure_bind]
    exact .refl _

namespace Hole

/-- Writes a block up to a hole, and says what follows the hole. -/
def opening (site : Site) : Hole → Emit (Emit Unit)
  | here before after => do
    Stmt.block site before
    return Stmt.block site after
  | inside before layer hole after => do
    Stmt.block site before
    let rest ← layer.opening site
    let within ← hole.opening site
    return do
      within
      rest
      Stmt.block site after

end Hole

/-- A block may be cut anywhere. -/
theorem Stmt.block_append (site : Site) (before after : List Stmt) :
  Stmt.block site (before ++ after) = (do
    Stmt.block site before
    Stmt.block site after)
  := by
  induction before with
  | nil => rw [List.nil_append, Stmt.block, pure_bind]
  | cons statement rest ih => rw [List.cons_append, Stmt.block, ih, Stmt.block, bind_assoc]

/-- A statement in a hole is written where the opening of the hole ends. -/
theorem Hole.block_fill (site : Site) (hole : Hole) (statement : Stmt) :
  Emit.Alike (Stmt.block site (hole.fill statement)) (do
    let rest ← hole.opening site
    statement.emit site
    rest)
  := by
  induction hole with
  | here before after =>
    rw [Hole.fill, Stmt.block_append, Stmt.block]
    simp only [Hole.opening, bind_assoc, pure_bind]
    exact .refl _
  | inside before layer hole after ih =>
    rw [Hole.fill, Stmt.block_append, Stmt.block]
    have hwrap := (Layer.emit_wrap site layer (hole.fill statement)).trans
      (.bind (.refl _) fun rest => .bind ih fun _ => .refl rest)
    refine (Emit.Alike.bind (.refl _) fun _ => .bind hwrap fun _ => .refl _).trans ?_
    simp only [Hole.opening, bind_assoc, pure_bind]
    exact .refl _

/-! ### What an opening leads to -/

open Emit

/-- The draft has `nest` around the statement at hand, and begins with the given pieces. -/
def Emit.Reaches (nest : Nest) (front : List Chunk) (draft : Draft) : Prop :=
  draft.nest = nest ∧ Begins front draft

/-- The draft has `nest` around the statement at hand, and consists of the given pieces. -/
def Emit.Stops (nest : Nest) (front : List Chunk) (draft : Draft) : Prop :=
  draft.nest = nest ∧ draft.stream.pieces = front

namespace Emit.Plain

variable {nest nest' : Nest} {α : Type} {x : Emit α} (h : Writes nest nest' x)

include h

/-- What the draft begins with stays. -/
theorem reaches (front : List Chunk) :
  Leads (Reaches nest front) x fun _ => Reaches nest' front
  := fun _ _ _ hd hyields => ⟨h.leaves hd.1 hyields, hd.2.trans (h.adds hd.1 hyields)⟩

/-- What the draft consists of is its beginning afterwards. -/
theorem reaches_of_stops (front : List Chunk) :
  Leads (Stops nest front) x fun _ => Reaches nest' front
  := (h.reaches front).mono (fun d hd => ⟨hd.1, hd.2 ▸ .refl d⟩) fun _ _ => id

end Emit.Plain

/-- Placing a target where a part stops leads on behind its mark. -/
theorem Emit.place_reaches (nest : Nest) (front : List Chunk) (target : Target) :
  Leads (Stops nest front) (place target) fun _ => Reaches nest (front ++ [.mark target])
  := by
  rintro d _ d' ⟨hnest, rfl⟩ hyields
  cases hyields
  refine ⟨hnest, ?_⟩
  rw [Begins, Stream.pieces_place]

/-- An expression only writes, and leaves the nest alone. -/
theorem Exp.push_writes (site : Site) (e : Exp) {nest : Nest} :
  Writes nest nest (e.push site)
  := (Exp.push_inStep rfl e).plain fun _ => trivial

/-- An access to an expression only writes, and leaves the nest alone. -/
theorem Exp.access_writes (site : Site) (e : Exp) (access : Access) {nest : Nest} :
  Writes nest nest (e.access site access)
  := (Exp.access_inStep rfl e access).plain fun _ => trivial

/-- A block only writes, and what was around it is there again behind it. -/
theorem Stmt.block_writes (site : Site) (body : List Stmt) {nest : Nest} :
  Writes nest nest (Stmt.block site body)
  := Stmt.block_plain (fun _ => trivial) site nest body (.inr trivial)

/-- A loop begins with its head, and its tail is behind its body. -/
theorem LoopControl.opening_leads (site : Site) (loop : Loop) (control : LoopControl)
    (nest : Nest) (front : List Chunk) :
  Leads (Stops nest front) (control.opening site loop) fun rest d =>
    Reaches nest (front ++ control.head loop) d ∧ Writes nest nest rest
      ∧ ∀ back, Leads (Stops nest back) rest fun _ => Reaches nest (back ++ control.tail loop)
  := by
  cases control with
  | forever =>
    refine .andThen (place_reaches nest front loop.next) (.pure fun d hd => ⟨hd, .jump .., ?_⟩)
    intro back
    rw [LoopControl.tail, List.append_nil]
    exact Plain.reaches_of_stops (.jump ..) back
  | times count =>
    rw [LoopControl.head, List.append_nil]
    refine .andThen ((count.push_writes site).reaches_of_stops front) ?_
    refine .andThen (Plain.reaches (.jump ..) front) ?_
    refine .bind (Plain.newTarget.reaches front) fun top => ?_
    refine .andThen (Plain.reaches (.place top) front) (.pure fun d hd => ⟨hd, ?_, ?_⟩)
    · exact .andThen (.place _) (.jump ..)
    · exact fun back => .andThen (place_reaches nest back _) (Plain.reaches (.jump ..) _)
  | before negated condition =>
    refine .andThen (place_reaches nest front loop.next) ?_
    refine .andThen ((condition.push_writes site).reaches _) ?_
    refine .andThen (Plain.reaches (.jump ..) _) (.pure fun d hd => ⟨hd, .jump .., ?_⟩)
    intro back
    rw [LoopControl.tail, List.append_nil]
    exact Plain.reaches_of_stops (.jump ..) back
  | after negated condition =>
    rw [LoopControl.head, List.append_nil]
    refine .bind (Plain.newTarget.reaches_of_stops front) fun top => ?_
    have htest : Writes nest nest (do
        condition.push site
        Emit.jump (Jump.onFailure !negated) top) :=
      .andThen (condition.push_writes site) (.jump ..)
    refine .andThen (Plain.reaches (.place top) front) (.pure fun d hd => ⟨hd, ?_, ?_⟩)
    · exact .andThen (.place _) htest
    · exact fun back => .andThen (place_reaches nest back _) (htest.reaches _)
  | fromTo counter first last step =>
    rw [LoopControl.head, List.append_nil]
    refine .bind (Plain.newTarget.reaches_of_stops front) fun top => ?_
    refine .andThen ((first.push_writes site).reaches front) ?_
    refine .andThen ((counter.access_writes site .store).reaches front) ?_
    have hrange : Writes nest nest (do
        first.push site
        last.push site
        counter.access site .modify
        Emit.jump (if step.isSome then 0x06 else 0x02) top) :=
      .andThen (first.push_writes site) (.andThen (last.push_writes site)
        (.andThen (counter.access_writes site .modify) (.jump ..)))
    refine .andThen (Plain.reaches (.place top) front) (.pure fun d hd => ⟨hd, ?_, ?_⟩)
    · cases step with
      | none => exact .andThen (.place _) hrange
      | some e => exact .andThen (.place _) (.andThen (e.push_writes site) hrange)
    · intro back
      refine .andThen (place_reaches nest back _) ?_
      cases step with
      | none => exact hrange.reaches _
      | some e => exact (Plain.andThen (e.push_writes site) hrange).reaches _

/-- The code of a loop around a hole. It starts behind `start`, where the targets of the loop are
made; from the hole on it is written by `rest`, up to the mark of its end. -/
structure Spans (control : LoopControl) (loop : Loop) (start hole : Draft) (rest : Emit Unit) :
    Prop where
  next : loop.next = start.stream.targets.length
  quit : loop.quit = start.stream.targets.length + 1
  counted : loop.counted = control.isCounted
  head : Begins (start.stream.pieces ++ control.head loop) hole
  tail : ∀ d d', d.nest = hole.nest → Yields rest d () d' → ∃ body code,
    d.stream.pieces <+: body ∧ body ++ control.tail loop <+: code
      ∧ Begins (code ++ [.mark loop.quit]) d'

namespace Spans

variable {control : LoopControl} {loop : Loop} {start hole : Draft} {rest : Emit Unit}
  (h : Spans control loop start hole rest)

include h

/-- More is written behind the loop. -/
theorem append {nest nest' : Nest} (hrest : Writes hole.nest nest rest) {after : Emit Unit}
    (hafter : Writes nest nest' after) :
  Spans control loop start hole (do rest; after)
  where
  next := h.next
  quit := h.quit
  counted := h.counted
  head := h.head
  tail d d' hnest hyields := by
    obtain ⟨_, m, hfirst, hlast⟩ := yields_bind.mp hyields
    obtain ⟨body, code, hbody, hcode, hquit⟩ := h.tail d m hnest hfirst
    have hadds := hafter.adds (hrest.leaves hnest hfirst) hlast
    exact ⟨body, code, hbody, hcode, hquit.trans hadds⟩

/-- The hole is deeper in the loop. -/
theorem deeper {hole' : Draft} (hhole : Begins hole.stream.pieces hole') {before : Emit Unit}
    (hbefore : Writes hole'.nest hole.nest before) :
  Spans control loop start hole' (do before; rest)
  where
  next := h.next
  quit := h.quit
  counted := h.counted
  head := h.head.trans hhole
  tail d d' hnest hyields := by
    obtain ⟨_, m, hfirst, hrest⟩ := yields_bind.mp hyields
    obtain ⟨body, code, hbody, hcode, hquit⟩ := h.tail m d' (hbefore.leaves hnest hfirst) hrest
    exact ⟨body, code, List.IsPrefix.trans (hbefore.adds hnest hfirst) hbody, hcode, hquit⟩

end Spans

/-- The tests of a selection only write. -/
theorem Site.testArms_writes (site : Site) (arms : List (List (Range Exp) × Emit Unit))
    (targets : List Target) {nest : Nest} :
  Writes nest nest (site.testArms arms targets)
  := .forM fun _ _ => armTests_plain (fun _ => trivial) site _ _

/-- The bodies of the arms only write. -/
theorem Site.writeArms_writes (site : Site) (arms : List Arm) (targets : List Target)
    {nest : Nest} :
  Writes nest nest (Site.writeArms (Stmt.arms site arms) targets)
  := by
  apply Plain.forM
  rintro ⟨arm, target⟩ hmem
  have harm := Stmt.arms_plain (p := fun _ => True) (fun _ => trivial) site nest arms
    (fun _ _ _ _ _ => .inr trivial) arm (List.of_mem_zip hmem).1
  exact .andThen (.place target) (.andThen harm (.opcode _))

/-- The targets of a loop are made where it starts, and the block inside it finds them around it. -/
theorem Layer.opening_loop {site : Site} {pos : Pos} {control : LoopControl} {rest : Emit Unit}
    {d d' : Draft} (h : Yields ((Layer.loop pos control).opening site) d rest d') :
  ∃ loop : Loop, Reaches loop.nest d.stream.pieces d' ∧ Writes loop.nest d.nest rest
    ∧ Spans control loop d d' rest
  := by
  obtain ⟨_, m, hget, h⟩ := yields_bind.mp h
  cases hget
  obtain ⟨next, m, hnext, h⟩ := yields_bind.mp h
  cases hnext
  obtain ⟨quit, m, hquit, h⟩ := yields_bind.mp h
  cases hquit
  obtain ⟨_, m, hnest, h⟩ := yields_bind.mp h
  cases hnest
  obtain ⟨passes, m, hpasses, h⟩ := yields_bind.mp h
  cases h
  have hlength : (d.stream.targets ++ [({} : TargetState)]).length
      = d.stream.targets.length + 1 := List.length_append
  obtain ⟨⟨hnest, hhead⟩, hwrites, htail⟩ := LoopControl.opening_leads site _ control _
    d.stream.pieces _ _ _ ⟨rfl, by rfl⟩ hpasses
  refine ⟨_, ⟨hnest, (List.prefix_append ..).trans hhead⟩, ?_, rfl, hlength, rfl, hhead, ?_⟩
  · exact .andThen hwrites (.andThen (.place _) (.modifyNest fun _ => d.nest))
  intro e e' he hyields
  obtain ⟨_, m, hrest, hlast⟩ := yields_bind.mp hyields
  cases hlast
  refine ⟨e.stream.pieces, m.stream.pieces, List.prefix_refl _, ?_, ?_⟩
  · exact (htail e.stream.pieces e _ m ⟨he.trans hnest, rfl⟩ hrest).2
  · exact (Stream.pieces_place ..) ▸ List.prefix_refl _

/-- A branch adds nothing to what is around its blocks, and a CASE adds itself. -/
theorem Layer.opening_leads {site : Site} {nest : Nest} {layer : Layer}
    (hloop : ∀ pos control, layer ≠ .loop pos control) (front : List Chunk) :
  Leads (Reaches nest front) (layer.opening site) fun rest d => ∃ n,
    Reaches { nest with cases := nest.cases + n } front d
      ∧ Writes { nest with cases := nest.cases + n } nest rest
      ∧ ∀ outer, layer.enter outer = { outer with cases := outer.cases + n }
  := by
  cases layer with
  | loop pos control => cases hloop pos control rfl
  | yes pos negated condition otherwise =>
    refine .andThen ((condition.push_writes site).reaches front) ?_
    refine .bind (Plain.newTarget.reaches front) fun skip => ?_
    refine .andThen (Plain.reaches (.jump ..) front) (.pure fun d hd => ⟨0, hd, ?_, fun _ => rfl⟩)
    cases otherwise with
    | none => exact .place skip
    | some part =>
      refine .bind .newTarget fun done _ => .andThen (.jump ..) (.andThen (.place skip) ?_)
      exact .andThen (Stmt.block_writes site part) (.place done)
  | no pos negated condition first =>
    refine .andThen ((condition.push_writes site).reaches front) ?_
    refine .bind (Plain.newTarget.reaches front) fun skip => ?_
    refine .andThen (Plain.reaches (.jump ..) front) ?_
    refine .andThen ((Stmt.block_writes site first).reaches front) ?_
    refine .bind (Plain.newTarget.reaches front) fun done => ?_
    refine .andThen (Plain.reaches (.jump ..) front) ?_
    refine .andThen (Plain.reaches (.place skip) front) (.pure fun d hd => ?_)
    exact ⟨0, hd, .place done, fun _ => rfl⟩
  | arm pos value front' tests back default =>
    refine .andThen (Plain.reaches (.modifyNest Nest.deeper) front) ?_
    refine .bind (Plain.newTarget.reaches front) fun done => ?_
    refine .andThen (Plain.reaches (.offset done) front) ?_
    refine .andThen ((value.push_writes site).reaches front) ?_
    refine .bind (Plain.reaches (.mapM_newTarget _) front) fun before => ?_
    refine .bind (Plain.newTarget.reaches front) fun target => ?_
    refine .bind (Plain.reaches (.mapM_newTarget _) front) fun after => ?_
    refine .andThen ((site.testArms_writes _ before).reaches front) ?_
    refine .andThen ((Site.armTests_plain (fun _ => trivial) site tests target).reaches front) ?_
    refine .andThen ((site.testArms_writes _ after).reaches front) ?_
    refine .andThen ((Stmt.block_writes site default).reaches front) ?_
    refine .andThen (Plain.reaches (.opcode _) front) ?_
    refine .andThen ((site.writeArms_writes front' before).reaches front) ?_
    refine .andThen (Plain.reaches (.place target) front) (.pure fun d hd => ?_)
    refine ⟨1, hd, .andThen (.opcode _) ?_, fun _ => rfl⟩
    exact .andThen (site.writeArms_writes back after)
      (.andThen (.place done) (.modifyNest Nest.shallower))
  | other pos value arms =>
    refine .andThen (Plain.reaches (.modifyNest Nest.deeper) front) ?_
    refine .bind (Plain.newTarget.reaches front) fun done => ?_
    refine .andThen (Plain.reaches (.offset done) front) ?_
    refine .andThen ((value.push_writes site).reaches front) ?_
    refine .bind (Plain.reaches (.mapM_newTarget _) front) fun targets => ?_
    refine .andThen ((site.testArms_writes _ targets).reaches front) (.pure fun d hd => ?_)
    refine ⟨1, hd, .andThen (.opcode _) ?_, fun _ => rfl⟩
    exact .andThen (site.writeArms_writes arms targets)
      (.andThen (.place done) (.modifyNest Nest.shallower))

/-- What is around a hole: what is around the block, with more CASEs, or the innermost loop that is
around the hole in the block. -/
theorem Hole.opening_leads {site : Site} {hole : Hole} {rest : Emit Unit} {d d' : Draft}
    (h : Yields (hole.opening site) d rest d') :
  Begins d.stream.pieces d' ∧ Writes d'.nest d.nest rest
    ∧ ((∃ n, d'.nest = { d.nest with cases := d.nest.cases + n }
        ∧ ∀ outer, hole.around outer = { outer with cases := outer.cases + n })
      ∨ ∃ control loop n start, d'.nest = { loop.nest with cases := n }
        ∧ (∀ outer, hole.around outer = { loop := some control, cases := n })
        ∧ Begins d.stream.pieces start ∧ Spans control loop start d' rest)
  := by
  induction hole generalizing rest d d' with
  | here before after =>
    obtain ⟨_, m, hbefore, h⟩ := yields_bind.mp h
    cases h
    have hwrites : Writes d.nest d.nest (Stmt.block site before) := Stmt.block_writes site before
    have hnest := hwrites.leaves rfl hbefore
    rw [hnest]
    exact ⟨hwrites.adds rfl hbefore, Stmt.block_writes site after, .inl ⟨0, rfl, fun _ => rfl⟩⟩
  | inside before layer hole after ih =>
    obtain ⟨_, m₁, hbefore, h⟩ := yields_bind.mp h
    obtain ⟨behind, m₂, hlayer, h⟩ := yields_bind.mp h
    obtain ⟨within, m₃, hhole, h⟩ := yields_bind.mp h
    cases h
    have hwrites : Writes d.nest d.nest (Stmt.block site before) := Stmt.block_writes site before
    have hstart := hwrites.adds rfl hbefore
    have hafter : Writes m₁.nest m₁.nest (Stmt.block site after) := Stmt.block_writes site after
    rw [← hwrites.leaves rfl hbefore]
    obtain ⟨hbegins, hwithin, hinner⟩ := ih hhole
    by_cases hloop : ∃ pos control, layer = .loop pos control
    · obtain ⟨pos, control, rfl⟩ := hloop
      obtain ⟨loop, ⟨hnest, hopened⟩, hbehind, hspans⟩ := Layer.opening_loop hlayer
      rw [← hnest] at hbehind
      have hrest := Plain.andThen hbehind hafter
      refine ⟨(hstart.trans hopened).trans hbegins, .andThen hwithin hrest, .inr ?_⟩
      rcases hinner with
        ⟨n, hdeep, haround⟩ | ⟨deep, loop', n, start, hdeep, haround, hlater, hspan⟩
      · refine ⟨control, loop, n, m₁, ?_, fun _ => ?_, hstart, ?_⟩
        · rw [hdeep, hnest, Loop.nest, Nat.zero_add]
        · rw [Hole.around, haround, Layer.enter, Nat.zero_add]
        · exact (hspans.append hbehind hafter).deeper hbegins hwithin
      · exact ⟨deep, loop', n, start, hdeep, fun _ => haround _,
          (hstart.trans hopened).trans hlater, hspan.append hwithin hrest⟩
    · obtain ⟨n, ⟨hnest, hopened⟩, hbehind, henter⟩ := Layer.opening_leads
        (fun pos control h => hloop ⟨pos, control, h⟩) m₁.stream.pieces _ _ _ ⟨rfl, .refl m₁⟩ hlayer
      rw [← hnest] at hbehind
      have hrest := Plain.andThen hbehind hafter
      refine ⟨(hstart.trans hopened).trans hbegins, .andThen hwithin hrest, ?_⟩
      rcases hinner with
        ⟨n', hdeep, haround⟩ | ⟨deep, loop', n', start, hdeep, haround, hlater, hspan⟩
      · refine .inl ⟨n + n', ?_, fun _ => ?_⟩
        · rw [hdeep, hnest, Nat.add_assoc]
        · rw [Hole.around, haround, henter, Nat.add_assoc]
      · exact .inr ⟨deep, loop', n', start, hdeep, fun _ => haround _,
          (hstart.trans hopened).trans hlater, hspan.append hwithin hrest⟩

/-! ### Exits -/

/-- The jump that leaves a pass. Only QUIT of a counted loop takes away a counter. -/
def Leave.jump (leave : Leave) (control : LoopControl) (loop : Loop) : Record :=
  let byte : UInt8 := if leave = .quit ∧ control.isCounted = true then 0x0b else 0x04
  let target := match leave with
    | .next => loop.next
    | .quit => loop.quit
  { kind := .jump byte, target, bytes := [byte, 0] }

/-- The code that leaves a pass: behind CASEs, the bytes that they keep on the stack and the opcode
that takes them away; and the jump. -/
def Leave.pieces (leave : Leave) (control : LoopControl) (loop : Loop) (cases : Nat) : List Chunk :=
  (if 0 < cases then
      (Push.shortest (BitVec.ofNat 32 (8 * cases)) ++ [0x14]).map fun byte => .code [byte]
    else [])
    ++ [.record (leave.jump control loop)]

/-- What a statement that leaves a loop writes depends on the loop and on the selections around it,
whose values are dropped first. -/
theorem Leave.pieces_of_yields {leave : Leave} {control : LoopControl} {loop : Loop} {n : Nat}
    {pos : Pos} {d d' : Draft} (hnest : d.nest = { loop.nest with cases := n })
    (hcounted : loop.counted = control.isCounted) (h : Yields (leave.emit pos) d () d') :
  d'.stream.pieces = d.stream.pieces ++ leave.pieces control loop n
  := by
  have hopcode : leave.opcode d.nest
      = if leave = .quit ∧ control.isCounted = true then 0x0b else 0x04 := by
    simp [Leave.opcode, hnest, Loop.nest, hcounted, Jump.ifTrue, Jump.always]
  have hjump : ∀ (stream : Stream) (target : Target), leave.target? d.nest = some target →
      (stream.jump (leave.opcode d.nest) target).pieces
        = stream.pieces ++ [.record (leave.jump control loop)] := by
    intro stream target htarget
    rw [hnest] at htarget
    rw [Stream.jump, Stream.pieces_addRecord, hopcode]
    cases leave <;> cases htarget <;> rfl
  rw [Yields, Leave.run_emit, Leave.exit] at h
  rw [Leave.pieces, Nat.mul_comm]
  cases htarget : leave.target? d.nest with
  | none =>
    rw [htarget] at h
    cases h
  | some target =>
    have hcases : d.nest.cases = n := congrArg Nest.cases hnest
    rw [htarget, hcases] at h
    dsimp only at h
    split_ifs at h ⊢
    · cases h
      simp only [hjump _ _ htarget, Stream.push, Stream.pieces_code, List.map_append,
        List.append_assoc, List.map_cons, List.map_nil]
    · cases h
      rw [hjump _ _ htarget, List.nil_append]

/-- The statement for a way to leave a loop is compiled to the code for it. -/
theorem Leave.emit_stmt (leave : Leave) (site : Site) (pos : Pos) :
  (leave.stmt pos).emit site = leave.emit pos
  := by
  cases leave <;> rw [Leave.stmt, Stmt.emit]

/-- A body that could be written has a loop around every NEXT and QUIT, and each of them is written
as the exit from the innermost one. -/
theorem Hole.exit_written {site : Site} {hole : Hole} {leave : Leave} {pos : Pos} {d d' : Draft}
    (hnest : d.nest = {}) (h : Yields (Stmt.block site (hole.fill (leave.stmt pos))) d () d') :
  ∃ control n loop rest start e e', hole.around {} = { loop := some control, cases := n }
    ∧ Yields (hole.opening site) d rest e ∧ e.nest = { loop.nest with cases := n }
    ∧ Begins d.stream.pieces start ∧ Spans control loop start e rest
    ∧ Yields ((leave.stmt pos).emit site) e () e'
    ∧ e'.stream.pieces = e.stream.pieces ++ leave.pieces control loop n ∧ Yields rest e' () d'
  := by
  obtain ⟨rest, e, hopening, h⟩ := yields_bind.mp ((Hole.block_fill site hole _ d () d').mp h)
  obtain ⟨_, e', hleave, hrest⟩ := yields_bind.mp h
  have hexit := hleave
  rw [Leave.emit_stmt] at hexit
  obtain ⟨_, _, hinner⟩ := Hole.opening_leads hopening
  rcases hinner with ⟨n, houter, _⟩ | ⟨control, loop, n, start, hinner, haround, hstart, hspans⟩
  · rw [Yields, Leave.run_emit, houter, hnest] at hexit
    cases leave <;> cases hexit
  · exact ⟨control, n, loop, rest, start, e, e', haround {}, hopening, hinner, hstart, hspans,
      hleave, Leave.pieces_of_yields hinner hspans.counted hexit, hrest⟩

/-- NEXT and QUIT unwind exactly what they leave. A body with one outside of all loops cannot be
written, and one that has a loop around each does not fail for want of a loop. In a body that was
written each stands as its exit from the innermost loop, at the place where the hole opens. Every
statement of a body is written there, with what the draft has around it at that place; and behind
every statement the draft has around it what it had before: the targets of the innermost loop, the
number of CASEs in it and whether it keeps a counter. -/
theorem Stmt.exits_unwind (site : Site) (body : List Stmt) :
  (∀ (hole : Hole) (leave : Leave) (pos : Pos), body = hole.fill (leave.stmt pos) →
      (hole.around {}).loop = none →
      ∀ d u d', d.nest = {} → ¬ Yields (Stmt.block site body) d u d')
    ∧ ((∀ (hole : Hole) (leave : Leave) (pos : Pos), body = hole.fill (leave.stmt pos) →
        (hole.around {}).loop ≠ none) →
      ∀ d fault d', Fails (Stmt.block site body) d fault d' → fault.cause ≠ .noEnclosingLoop)
    ∧ (∀ (hole : Hole) (leave : Leave) (pos : Pos) (d d' : Draft),
        body = hole.fill (leave.stmt pos) → d.nest = {} → Yields (Stmt.block site body) d () d' →
      ∃ control n loop rest start e e', hole.around {} = { loop := some control, cases := n }
        ∧ Yields (hole.opening site) d rest e ∧ e.nest = { loop.nest with cases := n }
        ∧ Begins d.stream.pieces start ∧ Spans control loop start e rest
        ∧ Yields ((leave.stmt pos).emit site) e () e'
        ∧ e'.stream.pieces = e.stream.pieces ++ leave.pieces control loop n
        ∧ Yields rest e' () d')
    ∧ (∀ (hole : Hole) (statement : Stmt) (d d' : Draft),
        Yields (Stmt.block site (hole.fill statement)) d () d' ↔ ∃ rest e e',
          Yields (hole.opening site) d rest e ∧ Yields (statement.emit site) e () e'
            ∧ Yields rest e' () d')
    ∧ ∀ (statement : Stmt) (d d' : Draft), Yields (statement.emit site) d () d' →
      d'.nest.next = d.nest.next ∧ d'.nest.quit = d.nest.quit ∧ d'.nest.cases = d.nest.cases
        ∧ d'.nest.plain = d.nest.plain
  := by
  refine ⟨?_, ?_, ?_, ?_, ?_⟩
  · rintro hole leave pos rfl hnone d u d' hnest h
    obtain ⟨control, n, _, _, _, _, _, haround, _⟩ := Hole.exit_written hnest h
    rw [haround] at hnone
    cases hnone
  · intro henclosed d fault d' h
    have hplain : Plain (· ≠ .noEnclosingLoop) d.nest d.nest (Stmt.block site body) :=
      Stmt.block_plain id site d.nest body
        (.inl fun hole leave pos hbody hnone => absurd hnone (henclosed hole leave pos hbody))
    exact hplain.fails rfl h
  · rintro hole leave pos d d' rfl hnest h
    exact Hole.exit_written hnest h
  · intro hole statement d d'
    rw [Hole.block_fill site hole statement d () d', yields_bind]
    constructor
    · rintro ⟨rest, e, hopening, h⟩
      obtain ⟨_, e', hstatement, hrest⟩ := yields_bind.mp h
      exact ⟨rest, e, e', hopening, hstatement, hrest⟩
    · rintro ⟨rest, e, e', hopening, hstatement, hrest⟩
      exact ⟨rest, e, hopening, yields_bind.mpr ⟨(), e', hstatement, hrest⟩⟩
  · intro statement d d' h
    have hplain := Stmt.emit_plain (p := fun _ => True) (fun _ => trivial) site d.nest statement
      (.inr trivial)
    rw [hplain.leaves rfl h]
    exact ⟨rfl, rfl, rfl, rfl⟩

/-- A hole in the arm of a CASE in a counted loop. -/
def armHole : Hole :=
  .inside [] (.loop {} (.times (.int {} 3)))
    (.inside [] (.arm {} (.int {} 2) [] [.single (.int {} 8)] [] [.next {}]) (.here [] []) []) []

/-- QUIT takes away the eight bytes of the CASE and jumps with the counter, and behind the body
there is no loop and no CASE around any more. -/
theorem Stmt.exits_unwind_armHole :
  ∃ loop rest start e e' d',
    Yields (Stmt.block { objects := [], obj := 0 } (armHole.fill (.quit {}))) {} () d'
    ∧ Spans (.times (.int {} 3)) loop start e rest
    ∧ e.nest = { next := some loop.next, quit := some loop.quit, cases := 1, plain := false }
    ∧ e'.stream.pieces = e.stream.pieces ++ [.code [0x37], .code [0x02], .code [0x14],
      .record { kind := .jump 0x0b, target := loop.quit, bytes := [0x0b, 0] }]
    ∧ e'.nest.next = e.nest.next
    ∧ Yields rest e' () d'
  := by
  obtain ⟨⟨⟩, d', hrun, _⟩ :
      ∃ u d', Yields (Stmt.block { objects := [], obj := 0 } (armHole.fill (.quit {}))) {} u d'
        ∧ d'.nest.cases = 0 := by
    decide +kernel
  obtain ⟨_, _, hexit, _, hkept⟩ :=
    Stmt.exits_unwind { objects := [], obj := 0 } (armHole.fill (.quit {}))
  obtain ⟨control, n, loop, rest, start, e, e', haround, _, hnest, _, hspans, hleave, hpieces,
    hrest⟩ := hexit armHole .quit {} {} d' rfl rfl hrun
  cases haround
  refine ⟨loop, rest, start, e, e', d', hrun, hspans, ?_, hpieces, (hkept _ e e' hleave).1, hrest⟩
  rw [hnest, Loop.nest, hspans.counted]
  rfl

end SpinHub
