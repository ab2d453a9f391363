import SpinHub.Code.Expression

/-!
# Code of statements

Every statement leaves the stack as it was. Inside a loop or a CASE the stack holds what
that statement needs, so NEXT and QUIT first take away what the CASEs between them and
their loop have pushed, and QUIT of a counted loop also takes away its counter. The draft
knows what is around the statement that is written: a loop puts its own targets there and
then what it has found, and a CASE counts itself while its parts are written.
-/

namespace SpinHub

/-- A loop around a statement. -/
structure Loop where
  next : Target
  quit : Target
  /-- The loop keeps a counter on the stack. -/
  counted : Bool

/-- What is around the body of a loop. -/
def Loop.nest (loop : Loop) : Nest :=
  { next := some loop.next, quit := some loop.quit, plain := !loop.counted }

/-- The statements that leave a pass of a loop. -/
inductive Leave where
  | next
  | quit
deriving DecidableEq

namespace Jump

/-! ### Opcodes of jumps -/

def always : UInt8 := 0x04
def ifFalse : UInt8 := 0x0a
def ifTrue : UInt8 := 0x0b

/-- The jump taken when a condition fails; `negated` turns the condition around. -/
def onFailure (negated : Bool) : UInt8 := if negated then ifTrue else ifFalse

end Jump

/-- The opcode that ends an arm of a CASE. -/
def caseDone : UInt8 := 0x0c

namespace Leave

/-- The target of a statement that leaves a pass. -/
def target? (leave : Leave) (nest : Nest) : Option Target :=
  match leave with
  | .next => nest.next
  | .quit => nest.quit

/-- The jump of a statement that leaves a pass. -/
def opcode (leave : Leave) (nest : Nest) : UInt8 :=
  if leave = .quit ∧ nest.plain = false then Jump.ifTrue else Jump.always

/-- Leaves a pass of the innermost loop of a nest. -/
def exit (leave : Leave) (nest : Nest) (pos : Pos) : Emit Unit := do
  match leave.target? nest with
  | none => failAt pos .noEnclosingLoop
  | some target =>
    if 0 < nest.cases then
      Emit.push (BitVec.ofNat 32 (nest.cases * 8))
      Emit.opcode 0x14
    Emit.jump (leave.opcode nest) target

/-- Leaves a pass of the innermost loop. -/
def emit (leave : Leave) (pos : Pos) : Emit Unit := do
  leave.exit (← get).nest pos

end Leave

namespace Site

/-- Leaves the method; the opcode behind `bare` takes a value. -/
def leaveMethod (site : Site) (bare : UInt8) : Option Exp → Emit Unit
  | none => Emit.opcode bare
  | some e => do
    e.push site
    Emit.opcode (bare + 1)

/-- A built-in procedure on the values of its arguments. -/
def builtin (site : Site) (opcode : UInt8) (args : List Exp) : Emit Unit := do
  args.forM fun e => e.push site
  Emit.opcode opcode

/-- A branch on a condition. -/
def branch (site : Site) (negated : Bool) (condition : Exp) (yes : Emit Unit)
    (no : Option (Emit Unit)) : Emit Unit := do
  condition.push site
  let otherwise ← Emit.newTarget
  Emit.jump (Jump.onFailure negated) otherwise
  yes
  match no with
  | none => Emit.place otherwise
  | some no =>
    let done ← Emit.newTarget
    Emit.jump Jump.always done
    Emit.place otherwise
    no
    Emit.place done

/-- The passes of a loop. -/
def passes (site : Site) (loop : Loop) (control : LoopControl) (body : Emit Unit) :
    Emit Unit := do
  match control with
  | .forever =>
    Emit.place loop.next
    body
    Emit.jump Jump.always loop.next
  | .times count =>
    count.push site
    Emit.jump 0x08 loop.quit
    let top ← Emit.newTarget
    Emit.place top
    body
    Emit.place loop.next
    Emit.jump 0x09 top
  | .before negated condition =>
    Emit.place loop.next
    condition.push site
    Emit.jump (Jump.onFailure negated) loop.quit
    body
    Emit.jump Jump.always loop.next
  | .after negated condition =>
    let top ← Emit.newTarget
    Emit.place top
    body
    Emit.place loop.next
    condition.push site
    Emit.jump (Jump.onFailure !negated) top
  | .fromTo counter first last step =>
    let top ← Emit.newTarget
    first.push site
    counter.access site .store
    Emit.place top
    body
    Emit.place loop.next
    match step with
    | some e => e.push site
    | none => pure ()
    first.push site
    last.push site
    counter.access site .modify
    Emit.jump (if step.isSome then 0x06 else 0x02) top

/-- A loop around a body, which finds the loop around it. -/
def loop (site : Site) (control : LoopControl) (body : Emit Unit) : Emit Unit :=
  Emit.restoring do
    let next ← Emit.newTarget
    let quit ← Emit.newTarget
    let counted := match control with
      | .times _ => true
      | _ => false
    let loop : Loop := { next, quit, counted }
    Emit.modifyNest fun _ => loop.nest
    site.passes loop control body
    Emit.place quit

/-- Jumps to an arm if the value of the CASE passes one of its tests. -/
def armTests (site : Site) (tests : List (Range Exp)) (target : Target) : Emit Unit :=
  (Exp.rangeCodes site tests).forM
    (rangeItem (Emit.jump 0x0d target) (Emit.jump 0x0e target))

/-- The body of an arm. -/
def armBody (body : Emit Unit) (target : Target) : Emit Unit := do
  Emit.place target
  body
  Emit.opcode caseDone

/-- A CASE: the tests of all arms, the default, and the bodies of the arms. -/
def select (site : Site) (value : Exp) (arms : List (List (Range Exp) × Emit Unit))
    (other : Emit Unit) : Emit Unit := do
  let done ← Emit.newTarget
  Emit.offset done
  value.push site
  let targets ← arms.mapM fun _ => Emit.newTarget
  (arms.zip targets).forM fun (arm, target) => site.armTests arm.1 target
  other
  Emit.opcode caseDone
  (arms.zip targets).forM fun (arm, target) => armBody arm.2 target
  Emit.place done

/-- A CASE around the code of its arms and its default. -/
def cases (site : Site) (value : Exp) (arms : List (List (Range Exp) × Emit Unit))
    (other : Emit Unit) : Emit Unit := do
  Emit.modifyNest Nest.deeper
  site.select value arms other
  Emit.modifyNest Nest.shallower

end Site

mutual

/-- Writes a statement. -/
def Stmt.emit (site : Site) : Stmt → Emit Unit
  | .exp _ e => e.run site
  | .ret _ value => site.leaveMethod 0x32 value
  | .abort _ value => site.leaveMethod 0x30 value
  | .branch _ negated condition yes none =>
    site.branch negated condition (Stmt.block site yes) none
  | .branch _ negated condition yes (some no) =>
    site.branch negated condition (Stmt.block site yes) (some (Stmt.block site no))
  | .loop _ control body => site.loop control (Stmt.block site body)
  | .next pos => Leave.next.emit pos
  | .quit pos => Leave.quit.emit pos
  | .select _ value arms other => site.cases value (Stmt.arms site arms) (Stmt.block site other)
  | .reboot _ => Emit.code [0x37, 0x06, 0x35, 0x20]
  | .fillMove _ op args => site.builtin op.opcode args
  | .wait _ op args => site.builtin op.opcode args
  | .clkset _ mode frequency => site.builtin 0x20 [mode, frequency]
  | .cogstop _ cog => site.builtin 0x21 [cog]

/-- Writes statements in order. -/
def Stmt.block (site : Site) : List Stmt → Emit Unit
  | [] => return ()
  | statement :: rest => do
    statement.emit site
    Stmt.block site rest

/-- The tests and the code of the arms of a CASE. -/
def Stmt.arms (site : Site) : List Arm → List (List (Range Exp) × Emit Unit)
  | [] => []
  | .mk tests body :: rest => (tests, Stmt.block site body) :: Stmt.arms site rest

end

/-- The draft of a body of statements. -/
def Site.draft (site : Site) (body : List Stmt) : Eval Draft :=
  ExceptT.mk fun memo =>
    let out := (Stmt.block site body).run.run { memo }
    (out.1.map fun _ => out.2, out.2.memo)

end SpinHub
