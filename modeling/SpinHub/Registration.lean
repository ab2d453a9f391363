import SpinHub.Build

/-!
# Registration

The objects of a build are the root and, depth first, every file that is included from an
object read before. An object stands behind the object that includes it in the order of
layout, and a file that is included again moves to the end together with the files it
includes itself. A file may not include itself through any chain of files.
-/

namespace SpinHub

/-- What has been read so far. -/
structure Registration where
  /-- The sources that have not been read. -/
  sources : List SourceObject
  objects : List Object := []
  order : List ObjId := []
  /-- The objects whose includes are still being read, innermost first. -/
  reading : List ObjId := []

/-- Reading that stops at the first fault. -/
abbrev Registering := StateT Registration (Except Fault)

namespace Registration

/-- The source of a file, the last one if several have its name. -/
def source? (state : Registration) (file : String) : Option SourceObject :=
  state.sources.reverse.find? fun source => FileName.key source.file = FileName.key file

/-- Drops all sources of a file. -/
def dropSource (state : Registration) (file : String) : Registration :=
  { state with sources := state.sources.filter fun source =>
      FileName.key source.file ≠ FileName.key file }

/-- Moves an object to the end of the order of layout. -/
def moveToEnd (state : Registration) (id : ObjId) : Registration :=
  { state with order := state.order.filter (· ≠ id) ++ [id] }

/-- Adds an object whose includes are read next. -/
def addObject (state : Registration) (object : Object) : Registration :=
  let id := state.objects.length
  { state with
    objects := state.objects ++ [object]
    order := state.order ++ [id]
    reading := id :: state.reading }

/-- Records the object that a sub-object stands for. -/
def setTarget (state : Registration) (id : ObjId) (index : Nat) (target : ObjId) :
    Registration :=
  { state with objects := state.objects.modify id fun object =>
      { object with subs := object.subs.modify index fun sub => { sub with target } } }

end Registration

namespace Registering

/-- Moves an object that was read before to the end of the order. -/
def repeatObject (file : Ident) (id : ObjId) : Registering Unit := do
  let state ← get
  if id ∈ state.reading then
    throw { cause := .circularObject (objectAt state.objects id).file, pos := file.pos }
  else
    set (state.moveToEnd id)

/-- The object of a file that was read before; it and the objects it includes move to the end
of the order. -/
def again? (file : Ident) : Registering (Option ObjId) := do
  let state ← get
  match fileId? state.objects (FileName.key file.name) with
  | none => return none
  | some id =>
    repeatObject file id
    (objectAt state.objects id).subs.forM fun sub => repeatObject file sub.target
    return some id

/-- Fails because a file has no source. -/
def missing {α : Type} (file : Ident) : Registering α :=
  throw { cause := .missingObject (FileName.normalize file.name), pos := file.pos }

/-- Reads the files that sub-objects of object `id` stand for, by a reader of one file. -/
def readSubs (read : Ident → Registering ObjId) (id : ObjId) (display : String) :
    List SubObject → Nat → Registering Unit
  | [], _ => return ()
  | sub :: rest, index => do
    let target ← inFile display (read sub.file)
    modify (·.setTarget id index target)
    readSubs read id display rest (index + 1)

/-- Reads a file and all that it includes, at most `depth` files deep. -/
def read : Nat → Ident → Registering ObjId
  | 0, file => do
    match ← again? file with
    | some id => return id
    | none => missing file
  | depth + 1, file => do
    match ← again? file with
    | some id => return id
    | none =>
      let state ← get
      match state.source? file.name with
      | none => missing file
      | some source =>
        let display := FileName.normalize source.file
        let object ← liftM ((Object.ofSource source).mapError (·.inFile display))
        let id := state.objects.length
        set ((state.dropSource file.name).addObject object)
        readSubs (read depth) id display object.subs 0
        if object.firstPublic?.isNone then
          throw { cause := .noPublicMethods display, pos := file.pos }
        else
          modify fun state => { state with reading := state.reading.drop 1 }
          return id

end Registering

/-- The build of a program before any layout. Each file is read once, so the number of sources
bounds the depth. -/
def Program.register (program : Program) : Except Fault Build := do
  let state : Registration := { sources := program.objects }
  let result ← (Registering.read program.objects.length { name := program.root }).run state
  return { objects := result.2.objects, order := result.2.order }

end SpinHub
