import SpinHub.Build

/-!
# Instances

Every instance of a sub-object that owns variables has a block of its own behind the
variables of the object that declares it. The total of an object is the size of its own
variables and the totals of all such instances; it is computed once. Of identical objects
one takes the place of the others.
-/

namespace SpinHub

/-- The totals known so far. -/
abbrev Totals := List (ObjId × Nat)

/-- The total of an object whose includes are at most `depth` deep: its own variables and the
totals of all instances that own theirs. -/
def totalWithin (objects : List Object) : Nat → ObjId → StateM Totals Nat
  | 0, id => return (objectAt objects id).varSize
  | depth + 1, id => do
    match (← get).lookup id with
    | some size => return size
    | none =>
      let object := objectAt objects id
      let owned ← (object.subs.filter (·.ownsVars)).mapM fun sub => do
        return sub.count * (← totalWithin objects depth sub.target)
      let size := object.varSize + total owned
      modify ((id, size) :: ·)
      return size

/-- The object that stands for `id` after at most `steps` replacements. -/
def survivorWithin (objects : List Object) : Nat → ObjId → ObjId
  | 0, id => id
  | steps + 1, id =>
    match (objectAt objects id).replacement with
    | some next => survivorWithin objects steps next
    | none => id

/-- A slot of a sub-object instance: the object it calls into and the offset of its variables
from those of the object that declares it. -/
abbrev Entry := ObjId × Nat

namespace Build

/-- The object that stands for `id`. Replacements stand later in the order, so their number
is below the number of objects. -/
def survivor (build : Build) (id : ObjId) : ObjId :=
  survivorWithin build.objects build.objects.length id

/-- Runs a computation on the totals of a build. -/
def withTotals {α : Type} (action : List Object → StateM Totals α) : StateM Build α :=
  fun build =>
    let out := action build.objects build.totals
    (out.1, { build with totals := out.2 })

/-- The bytes of variables that an instance of an object needs. Includes have no cycles, so
their depth is below the number of objects. -/
def totalVarSize (id : ObjId) : StateM Build Nat :=
  withTotals fun objects => totalWithin objects objects.length id

/-- The slots of `count` instances of a sub-object from a variable offset on, with the offset
behind them. -/
def subEntries (target : ObjId) (step : Nat) : Nat → Nat → List Entry × Nat
  | 0, offset => ([], offset)
  | count + 1, offset =>
    let rest := subEntries target step count (offset + step)
    ((target, offset) :: rest.1, rest.2)

/-- The slots of the instances of sub-objects from a variable offset on. -/
def entriesFrom (build : Build) : Nat → List SubObject → StateM Build (List Entry)
  | _, [] => return []
  | offset, sub :: rest => do
    let step ← if sub.ownsVars then totalVarSize sub.target else pure 0
    let own := subEntries (build.survivor sub.target) step sub.count offset
    return own.1 ++ (← entriesFrom build own.2 rest)

/-- The slots of all sub-object instances of an object. -/
def entries (id : ObjId) : StateM Build (List Entry) := do
  let build ← get
  let object := build.object id
  entriesFrom build object.varSize object.subs

end Build

end SpinHub
