import SpinHub.Scope
import SpinHub.Value

/-!
# Constant evaluation

Constant expressions are evaluated against the symbols of the objects. A named constant is
evaluated at its first use, in its own object, and its value is remembered; a constant that
is used while it is being evaluated is circular. A failed evaluation leaves the constant as
it was before.
-/

namespace SpinHub

/-- How far a constant has come. -/
inductive Status where
  | pending
  | evaluating
  | done (value : Value)
deriving DecidableEq

/-- A constant by its object and its place there. -/
abbrev ConId := ObjId × Nat

/-- What is known of the constants; one that is not listed is pending. -/
abbrev Memo := List (ConId × Status)

namespace Memo

/-- How far a constant has come. -/
def status (memo : Memo) (id : ConId) : Status := (memo.lookup id).getD .pending

/-- Records how far a constant has come. -/
def record (memo : Memo) (id : ConId) (status : Status) : Memo :=
  (id, status) :: memo.filter (·.1 ≠ id)

end Memo

/-- Computations that may fail and that read and extend the memo; a failure keeps it. -/
abbrev Eval := ExceptT Fault (StateM Memo)

/-- Fails at a place. -/
def failAt {m : Type → Type} [MonadExceptOf Fault m] {α : Type} (pos : Pos) (cause : Cause) :
    m α :=
  throw { cause, pos }

/-- Takes a result, or fails at a place. -/
def liftAt {m : Type → Type} [Monad m] [MonadExceptOf Fault m] {α : Type} (pos : Pos) :
    Except Cause α → m α
  | .ok a => pure a
  | .error cause => failAt pos cause

/-- Attaches a file to failures that have none. -/
def inFile {m : Type → Type} [MonadExceptOf Fault m] {α : Type} (file : String) (action : m α) :
    m α :=
  tryCatch action fun fault => throw (fault.inFile file)

/-- Where an expression is evaluated: the object, the frame, and in a DAT section the cog
address there. -/
structure Site where
  objects : List Object
  obj : ObjId
  scope : Scope := []
  here : Option Int := none

namespace Site

/-- The object of a site. -/
def object (site : Site) : Object := objectAt site.objects site.obj

/-- What a name stands for at a site. -/
def lookup? (site : Site) (name : String) : Option Meaning :=
  SpinHub.lookup? site.objects site.obj site.scope name

/-- What a name stands for in another object. -/
def lookupIn {m : Type → Type} [Monad m] [MonadExceptOf Fault m] (site : Site) (id : ObjId)
    (scope : Scope) (name : String) (pos : Pos) : m Meaning :=
  match SpinHub.lookup? site.objects id scope name with
  | some meaning => pure meaning
  | none => failAt pos (.unknownSymbol name)

/-- What a name that must be known stands for at a site. -/
def lookup {m : Type → Type} [Monad m] [MonadExceptOf Fault m] (site : Site) (name : String)
    (pos : Pos) : m Meaning :=
  site.lookupIn site.obj site.scope name pos

/-- How the value of a constant is found. -/
abbrev ConReader := ObjId → Nat → Con → Eval Value

/-- The value of a name. In a DAT section a label is its cog address in longs, elsewhere its
offset in the object. -/
def nameValue (readCon : ConReader) (site : Site) (name : String) (pos : Pos) : Eval Value := do
  match ← site.lookup name pos with
  | .label label =>
    match site.here with
    | some _ =>
      if label.cog % 4 ≠ 0 then failAt pos (.misalignedAddress name)
      else return .int (BitVec.ofInt 32 (label.cog.tdiv 4))
    | none => return .int (BitVec.ofNat 32 label.offset)
  | .con owner index con => readCon owner index con
  | _ => failAt pos (.notAConstant name)

/-- The value of a constant of a sub-object. -/
def memberValue (readCon : ConReader) (site : Site) (object name : String) (pos : Pos) :
    Eval Value := do
  match ← site.lookup object pos with
  | .sub sub =>
    match ← site.lookupIn sub.target [] name pos with
    | .con owner index con => readCon owner index con
    | _ => failAt pos (.memberNotAConstant object name)
  | _ => failAt pos (.constantOfNonObject object)

/-- The label of a name. -/
def labelNamed (site : Site) (name : String) (pos : Pos) : Eval Label := do
  match ← site.lookup name pos with
  | .label label => return label
  | _ => failAt pos (.constantNotALabel name)

/-- The label that an expression names. -/
def labelOf (site : Site) (e : Exp) : Eval Label :=
  match e.simpleName? with
  | some name => site.labelNamed name e.pos
  | none => failAt e.pos .expectedLabel

/-- The value of a constant expression, by a reader of constants. -/
def evalWith (readCon : ConReader) (site : Site) : Exp → Eval Value
  | .int _ w => return .int w
  | .float _ x => return .float x
  | .name pos name => site.nameValue readCon name pos
  | .cell pos name none [] => site.nameValue readCon name pos
  | .member pos object name => site.memberValue readCon object name pos
  | .unary _ .addressOf operand => do
    let label ← site.labelOf operand
    return .int (BitVec.ofNat 32 label.offset)
  | .unary pos op operand => do
    let v ← evalWith readCon site operand
    liftAt pos (v.unary op)
  | .binary pos op left right => do
    let l ← evalWith readCon site left
    let r ← evalWith readCon site right
    liftAt pos (l.binary op r)
  | .register pos reg .all =>
    match site.here with
    | some _ => return .int (BitVec.ofNat 32 (reg.toNat + 0x1f0))
    | none => failAt pos .registerInConstant
  | .register pos _ _ => failAt pos .registerInConstant
  | .convert _ conversion operand => do
    let v ← evalWith readCon site operand
    liftAt operand.pos (v.convert conversion)
  | .constant _ operand => evalWith readCon site operand
  | .here pos =>
    match site.here with
    | some address => return .int (BitVec.ofInt 32 address)
    | none => failAt pos .hereOutsideDat
  | .absolute pos name => do
    let label ← site.labelNamed name pos
    return .int (BitVec.ofNat 32 (label.offset + site.object.hubAddress))
  | e => failAt e.pos .expectedConstant

end Site

/-- The value of a constant. The constants in its expression are read by `inner`. -/
def readThrough (objects : List Object) (inner : Site.ConReader) : Site.ConReader :=
  fun owner index con => do
    match (← get).status (owner, index) with
    | .done v => return v
    | .evaluating => failAt con.name.pos (.circularReference con.name.name)
    | .pending =>
      modify (·.record (owner, index) .evaluating)
      let site : Site := { objects, obj := owner }
      try
        let v ← site.evalWith inner con.value
        modify (·.record (owner, index) (.done v))
        pure v
      catch fault =>
        modify (·.record (owner, index) .pending)
        throw (fault.inFile (objectAt objects owner).file)

/-- The value of a constant that is evaluated at most `depth` constants deep. -/
def conValueWithin (objects : List Object) : Nat → Site.ConReader
  | 0 => fun _ _ con => failAt con.name.pos (.circularReference con.name.name)
  | depth + 1 => readThrough objects (conValueWithin objects depth)

namespace Site

/-- The value of a constant. Each constant is evaluated at most once inside itself, so the
number of constants bounds the depth. -/
def conValue (site : Site) : ConReader :=
  conValueWithin site.objects (total (site.objects.map (·.cons.length)) + 1)

/-- The value of a constant expression. -/
def eval (site : Site) (e : Exp) : Eval Value := site.evalWith site.conValue e

/-- The value of a constant expression that must be a word, as a signed number. -/
def evalInt (site : Site) (e : Exp) : Eval Int := do
  let v ← site.eval e
  let w ← liftAt e.pos v.toWord
  return BitVec.toInt w

/-- The value of a constant expression that must be a single. -/
def evalSingle (site : Site) (e : Exp) : Eval Single := do
  let v ← site.eval e
  liftAt e.pos v.toSingle

/-- The word of an optional expression, or a default. -/
def evalIntOr (site : Site) (default : Int) : Option Exp → Eval Int
  | some e => site.evalInt e
  | none => return default

end Site

end SpinHub
