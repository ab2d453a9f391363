import SpinHub.Code.Method
import SpinHub.Container
import SpinHub.Dat.Section
import SpinHub.Image
import SpinHub.Layout.Slots
import SpinHub.Layout.Variables
import SpinHub.Registration

/-!
# Compilation

A program is registered, the slots of all objects are placed, the objects are compiled one
after another in the order of layout, duplicates are shared, and the image is written.
-/

namespace SpinHub

namespace Step

/-- Places the slots of the objects. -/
def placeSlots (ids : List ObjId) : Step Unit :=
  ids.forM fun id => do
    inObject id (placeSubs id)
    placeMethods id

/-- Compiles an object for a hub address and returns its size. -/
def compileObject (config : Config) (id : ObjId) (address : Nat) : Step Nat := do
  modifyObject id fun object => { object with hubAddress := address }
  measureDat config id
  inObject id (placeVars id)
  writeDat config id
  compileMethods config id

/-- Compiles objects for consecutive hub addresses. -/
def compileObjects (config : Config) : Nat → List ObjId → Step Unit
  | _, [] => return ()
  | address, id :: rest => do
    let size ← compileObject config id address
    compileObjects config (address + size) rest

/-- Lays out and compiles all objects. -/
def build (config : Config) : Step Unit := do
  let order := (← get).order
  placeSlots order
  compileObjects config headerSize order

/-- Shares duplicates if the configuration asks for it, and writes the image. -/
def link (config : Config) : Step Image := do
  if config.shareDuplicates then ofState Build.shareDuplicates
  image config

end Step

/-- Compiles a program to an image. -/
def Program.compile (program : Program) (config : Config) : Except Fault (Image × Build) := do
  let build ← program.register
  let (result, build) := (do Step.build config; Step.link config : Step Image).run.run build
  return (← result, build)

end SpinHub
