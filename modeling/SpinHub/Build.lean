import SpinHub.Config
import SpinHub.Evaluation

/-!
# Builds

A build is the set of objects of one program with all that the phases have found out so
far. A phase is a `Step`: it may fail, and what it changed before the failure stays.
-/

namespace SpinHub

/-- The objects of a program and the state of their compilation. Object 0 is the root. -/
structure Build where
  objects : List Object
  /-- The order in which the objects are laid out. -/
  order : List ObjId
  warnings : List Warning := []
  /-- The constants evaluated so far. -/
  memo : Memo := []
  /-- The variable totals computed so far. -/
  totals : List (ObjId × Nat) := []

/-- Computations on a build that may fail; a failure keeps the changes made before it. -/
abbrev Step := ExceptT Fault (StateM Build)

namespace Build

/-- The root object. -/
def root : ObjId := 0

/-- Object number `id`. -/
def object (build : Build) (id : ObjId) : Object := objectAt build.objects id

/-- Changes object number `id`. -/
def modifyObject (build : Build) (id : ObjId) (f : Object → Object) : Build :=
  { build with objects := build.objects.modify id f }

/-- Adds a remark about a place in object `id`. -/
def warn (build : Build) (id : ObjId) (pos : Pos) (text : String) : Build :=
  { build with warnings := build.warnings ++ [{ file := (build.object id).file, pos, text }] }

/-- The object of a file name. -/
def find? (build : Build) (file : String) : Option ObjId :=
  fileId? build.objects (FileName.key file)

/-- The files in the order of layout. -/
def files (build : Build) : List String := build.order.map fun id => (build.object id).file

/-- A site in object `id`. -/
def site (build : Build) (id : ObjId) : Site := { objects := build.objects, obj := id }

end Build

namespace Step

/-- Object number `id` as it is now. -/
def object (id : ObjId) : Step Object := return (← get).object id

/-- Changes object number `id`. -/
def modifyObject (id : ObjId) (f : Object → Object) : Step Unit := modify (·.modifyObject id f)

/-- Declares symbols of object `id`. -/
def declare (id : ObjId) (declarations : Declare Unit) : Step Unit :=
  ExceptT.mk fun build =>
    let out := declarations.run.run (build.object id)
    (out.1, build.modifyObject id fun _ => out.2)

/-- Adds a remark about a place in object `id`. -/
def warn (id : ObjId) (pos : Pos) (text : String) : Step Unit := modify (·.warn id pos text)

/-- Evaluates with the memo of the build, which keeps what was evaluated. -/
def evaluate {α : Type} (action : Eval α) : Step α :=
  ExceptT.mk fun build =>
    let out := action.run.run build.memo
    (out.1, { build with memo := out.2 })

/-- Evaluates at a site in object `id`. -/
def evaluateIn {α : Type} (id : ObjId) (action : Site → Eval α) : Step α := do
  let build ← get
  evaluate (action (build.site id))

/-- Attaches the file of object `id` to failures that have none. -/
def inObject {α : Type} (id : ObjId) (action : Step α) : Step α := do
  let object ← object id
  inFile object.file action

end Step

end SpinHub
