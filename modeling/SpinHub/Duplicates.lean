import SpinHub.Layout.Instances

/-!
# Duplicates

Two objects are the same when their method tables, their instance slots and their DAT
sections are. Of several objects that are the same, the last one in the order of layout
takes the place of the others.
-/

namespace SpinHub

/-- Whether two methods have the same offset, locals and code. -/
def Method.same (a b : Method) : Bool :=
  a.offset == b.offset && a.localsSize == b.localsSize && a.code == b.code

/-- Whether two objects have the same method tables. -/
def Object.sameMethods (a b : Object) : Bool :=
  a.methods.length == b.methods.length &&
    (a.methodTable.zip b.methodTable).all fun (m, n) => m.same n

namespace Build

/-- Whether two objects are the same. The slots are compared if the methods are the same. -/
def same (a b : ObjId) : StateM Build Bool := do
  let build ← get
  let objectA := build.object a
  let objectB := build.object b
  if objectA.sameMethods objectB then
    let entriesA ← entries a
    let entriesB ← entries b
    return entriesA == entriesB && objectA.datBytes == objectB.datBytes
  else
    return false

/-- Lets a survivor take the place of a candidate if they are the same and the candidate has
not been replaced. -/
def replaceIfSame (survivor candidate : ObjId) : StateM Build Unit := do
  if ((← get).object candidate).replacement.isNone then
    if ← same candidate survivor then
      modify (·.modifyObject candidate fun object =>
        { object with replacement := some survivor })

/-- Replaces objects by the last object of `latest :: earlier`, or what has taken its place,
and then goes on with the earlier ones. Both are given in reverse order of layout. -/
def shareFrom : List ObjId → StateM Build Unit
  | [] => return ()
  | latest :: earlier => do
    let build ← get
    let survivor := (build.object latest).replacement.getD latest
    earlier.forM (replaceIfSame survivor)
    shareFrom earlier

/-- Lets the last of several objects that are the same take the place of the others. -/
def shareDuplicates : StateM Build Unit := do
  let build ← get
  shareFrom build.order.reverse

end Build

/-- Runs a computation on a build that cannot fail. -/
def Step.ofState {α : Type} (action : StateM Build α) : Step α := ExceptT.lift action

end SpinHub
