import SpinHub.Object

/-!
# Scopes

A name is looked up in the frame of the method, then among the symbols of the object, then
among the files of the build.
-/

namespace SpinHub

/-- The slots of a frame: their keys and offsets. -/
abbrev Scope := List (String × Int)

namespace Scope

/-- Adds a slot; its name must be free in the frame and in the object. -/
def add (scope : Scope) (name : Ident) (offset : Int) (object : Object) : Except Fault Scope :=
  let key := nameKey name.name
  if (scope.lookup key).isSome ∨ (object.find? key).isSome then
    .error { cause := .duplicateSymbol name.name, pos := name.pos }
  else .ok (scope ++ [(key, offset)])

end Scope

/-- What a name stands for. -/
inductive Meaning where
  | slot (offset : Int)
  | con (owner : ObjId) (index : Nat) (con : Con)
  | label (label : Label)
  | var (var : Var)
  | sub (sub : SubObject)
  | method (method : Method)
  | file (id : ObjId)

/-- The object that a key names as a file. -/
def fileId? (objects : List Object) (key : String) : Option ObjId :=
  objects.findIdx? fun object => nameKey object.file = key

/-- Object number `id`. -/
def objectAt (objects : List Object) (id : ObjId) : Object := objects[id]?.getD default

namespace Object

/-- What a symbol of the object stands for. -/
def meaning? (object : Object) (id : ObjId) : SymbolRef → Option Meaning
  | .con i => object.cons[i]?.map (.con id i)
  | .label i => object.labels[i]?.map .label
  | .var i => object.vars[i]?.map .var
  | .sub i => object.subs[i]?.map .sub
  | .method i => object.methods[i]?.map .method

end Object

/-- What a name stands for in object `id` with the given frame. -/
def lookup? (objects : List Object) (id : ObjId) (scope : Scope) (name : String) :
    Option Meaning :=
  let object := objectAt objects id
  let key := object.key name
  match scope.lookup key with
  | some offset => some (.slot offset)
  | none =>
    match object.find? key with
    | some ref => object.meaning? id ref
    | none => (fileId? objects key).map .file

end SpinHub
