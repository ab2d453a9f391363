import SpinHub.Build
import SpinHub.Code.Statement

/-!
# Methods

The frame of a method holds its result, its parameters and its locals, each in longs. The
code of the methods follows the table and the DAT section of the object, public methods
first.
-/

namespace SpinHub

/-- The names of a frame and the bytes of its locals. -/
structure Frame where
  scope : Scope := []
  localsSize : Nat := 0

/-- Gives parameters consecutive slots from `offset` on. -/
def addParams (object : Object) : Scope → Nat → List Ident → Except Fault Scope
  | scope, _, [] => .ok scope
  | scope, offset, param :: rest => do
    let scope ← scope.add param offset object
    addParams object scope (offset + 4) rest

/-- The longs of a local variable. -/
def LocalDecl.longs (decl : LocalDecl) (site : Site) : Eval Nat := do
  let count ← site.evalIntOr 1 decl.count
  if count < 1 then failAt decl.name.pos (.arraySize decl.name.name) else return count.toNat

/-- Gives locals consecutive slots behind those of the parameters, which end at `base`. -/
def addLocals (site : Site) (base : Nat) : Frame → List LocalDecl → Eval Frame
  | frame, [] => return frame
  | frame, decl :: rest => do
    let longs ← decl.longs site
    let scope ← liftM (frame.scope.add decl.name (base + frame.localsSize : Nat) site.object)
    addLocals site base { scope, localsSize := frame.localsSize + 4 * longs } rest

namespace Method

/-- The frame of a method. Without a declared result the name RESULT stands for it, unless the
name is taken. -/
def frame (method : Method) (site : Site) : Eval Frame := do
  let scope : Scope ← match method.result with
    | some result => liftM (Scope.add [] result 0 site.object)
    | none => pure []
  let scope ← liftM (addParams site.object scope 4 method.params)
  let frame ← addLocals site (4 + 4 * method.params.length) { scope } method.locals
  if method.result.isNone && (lookup? site.objects site.obj frame.scope "RESULT").isNone then
    let result : Ident := { name := "RESULT", pos := method.name.pos }
    let scope ← liftM (frame.scope.add result 0 site.object)
    return { frame with scope }
  else
    return frame

end Method

/-- A method's code, the bytes of its locals and the remarks made on the way. -/
structure CompiledMethod where
  code : Bytes
  localsSize : Nat
  warnings : List (Pos × String)

/-- Compiles a method that starts at `base` in its object. -/
def Method.compile (method : Method) (config : Config) (site : Site) (base : Int) :
    Eval CompiledMethod := do
  let frame ← method.frame site
  let draft ← Site.draft { site with scope := frame.scope } method.body
  let code ← liftAt method.name.pos (draft.finish base config.roundLimit)
  return { code, localsSize := frame.localsSize, warnings := draft.warnings }

namespace Object

/-- The places of the methods in the order of the table. -/
def methodOrder (object : Object) : List Nat :=
  let places := List.range object.methods.length
  let isPublic (i : Nat) : Bool := (object.methods[i]?.map (·.isPublic)).getD false
  places.filter isPublic ++ places.filter (!isPublic ·)

/-- The bytes in front of the first method. -/
def codeStart (object : Object) : Nat :=
  (object.methods.length + 1) * 4 + object.subSlots * 4 + object.datBytes.length

/-- Changes the method at a place. -/
def modifyMethod (object : Object) (index : Nat) (f : Method → Method) : Object :=
  { object with methods := object.methods.modify index f }

end Object

namespace Step

/-- Compiles the method at a place of object `id` for an offset in the object. -/
def compileMethod (config : Config) (id : ObjId) (index : Nat) (base : Int) :
    Step (Option CompiledMethod) := do
  match (← object id).methods[index]? with
  | none => return none
  | some method => some <$> evaluateIn id fun site => method.compile config site base

/-- Compiles methods one after another from an offset on, and returns the offset behind them. -/
def compileFrom (config : Config) (id : ObjId) : Nat → List Nat → Step Nat
  | offset, [] => return offset
  | offset, index :: rest => do
    match ← inObject id (compileMethod config id index offset) with
    | none => compileFrom config id offset rest
    | some compiled =>
      compiled.warnings.forM fun (pos, text) => warn id pos text
      modifyObject id (·.modifyMethod index fun method =>
        { method with offset, localsSize := compiled.localsSize, code := compiled.code })
      compileFrom config id (offset + compiled.code.length) rest

/-- Compiles all methods of an object and returns the size of the object. -/
def compileMethods (config : Config) (id : ObjId) : Step Nat := do
  let object ← object id
  let finish ← compileFrom config id object.codeStart object.methodOrder
  let size := roundLong finish
  modifyObject id fun object => { object with size }
  return size

end Step

end SpinHub
