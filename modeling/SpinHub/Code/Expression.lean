import SpinHub.Bytecode.Access
import SpinHub.Code.Draft

/-!
# Code of expressions

An expression stands for code in two ways: code that computes its value, which is kept on
the stack or dropped, and code that accesses the cell it names. `Exp.code` gives both,
built from those of the parts. An operator that is applied to constants alone is computed
now and pushed as one value; if that fails it is left to run time.
-/

namespace SpinHub

/-- The code of an expression. -/
structure Code where
  /-- Computes the value and keeps it on the stack, or drops it. -/
  value : Bool → Emit Unit
  /-- Accesses the cell that the expression names. -/
  access : Access → Emit Unit
  /-- Pushes the arguments, for a call. -/
  arguments : List (Emit Unit) := []

/-- An expression with the code that pushes its value. -/
structure Term where
  exp : Exp
  push : Emit Unit

/-! ### Failures -/

/-- The value of the expression has to be kept. -/
def unused {α : Type} (pos : Pos) : Emit α := failAt pos .unusedValue

/-- The expression names no cell. -/
def notAssignable {α : Type} (pos : Pos) : Emit α := failAt pos .notAssignable

namespace Code

/-- Pushes the value. -/
def push (code : Code) : Emit Unit := code.value true

/-- The code of an expression that only has a value. -/
def ofPush (pos : Pos) (push : Emit Unit) : Code where
  value keep := if keep then push else unused pos
  access _ := notAssignable pos

/-- The code of an expression that names a cell. -/
def ofAccess (pos : Pos) (access : Access → Emit Unit) : Code where
  value keep := if keep then access .load else unused pos
  access := access

/-- The code of an expression that may be evaluated for its effect. -/
def ofValue (pos : Pos) (value : Bool → Emit Unit) : Code where
  value := value
  access _ := notAssignable pos

end Code

/-! ### Constants -/

namespace Site

/-- Whether a name is that of a constant. -/
def isCon (site : Site) (name : String) : Bool :=
  match site.lookup? name with
  | some (.con _ _ _) => true
  | _ => false

/-- Whether an expression is made of literals, constants and pure operators. -/
def isConstant (site : Site) : Exp → Bool
  | .name _ name => site.isCon name
  | .cell _ name none [] => site.isCon name
  | .int _ _ | .float _ _ | .member _ _ _ | .convert _ _ _ | .constant _ _ => true
  | .unary _ op operand => op.opcode?.isSome && !op.isAssignment && site.isConstant operand
  | .binary _ _ left right => site.isConstant left && site.isConstant right
  | _ => false

/-- Pushes the value of a constant expression. -/
def pushConstant (site : Site) (e : Exp) : Emit Unit := do
  let v ← Emit.evaluate (site.eval e)
  Emit.push v.bits

/-- Pushes the value of an operator on constants if it can be computed, and otherwise writes
the given code. -/
def folded (site : Site) (e : Exp) (code : Emit Unit) : Emit Unit := do
  if site.isConstant e then
    match ← Emit.evaluate? (site.eval e) with
    | some v => Emit.push v.bits
    | none => code
  else code

/-- An operator on two terms. -/
def binaryTerm (site : Site) (pos : Pos) (op : BinaryOp) (left right : Term) : Term :=
  let exp := .binary pos op left.exp right.exp
  { exp
    push := site.folded exp do
      left.push
      right.push
      Emit.opcode op.opcode }

/-! ### Cells -/

/-- Accesses a cell at an offset, behind the push of its index if it has one. -/
def accessCell (pos : Pos) (access : Access) (size : Int) (space : Space) (offset : Int)
    (index : Option (Emit Unit)) : Emit Unit := do
  match index with
  | some push => push
  | none => pure ()
  match access.encode? size space offset index.isSome with
  | some bytes => Emit.code bytes
  | none => failAt pos (.nonLongOffset offset)

/-- Code that adds the base and the variables of the object to a pair of offsets, or takes
them away, through the operator given by its opcode. -/
def relocate (site : Site) (opcode : UInt8) : Emit Unit := do
  Emit.push (BitVec.ofNat 32 site.object.hubAddress)
  Emit.code [opcode, 0x43, 0x37, 0x03, 0xe3, opcode]

/-- Accesses what a name stands for. A reference to an object is a pair of its address and
the address of its variables, and is stored relative to the current object. -/
def accessName (site : Site) (pos : Pos) (name : String) (access : Access) : Emit Unit := do
  match ← site.lookup name pos, access with
  | .con owner index con, .load =>
    let v ← Emit.evaluate (site.conValue owner index con)
    Emit.push v.bits
  | .slot offset, _ => accessCell pos access 4 .frame (int32 offset) none
  | .var var, _ => accessCell pos access var.size.bytes .vars (int32 var.offset) none
  | .label label, _ => accessCell pos access label.alignment .object label.offset none
  | .sub sub, .load =>
    accessCell pos .load 4 .object (sub.index * 4 : Nat) none
    site.relocate 0xec
  | .sub sub, .store =>
    site.relocate 0xed
    accessCell pos .store 4 .object (sub.index * 4 : Nat) none
  | _, _ => notAssignable pos

/-- A cell of the frame, the variables or the object: its space, declared size, offset and
extents. -/
structure Cell where
  space : Space
  size : Nat
  offset : Int
  extents : List Nat := []

/-- The cell of a name. -/
def cellNamed (site : Site) (pos : Pos) (name : String) : Emit Cell := do
  match ← site.lookup name pos with
  | .slot offset => return { space := .frame, size := 4, offset := int32 offset }
  | .var var =>
    return { space := .vars, size := var.size.bytes, offset := int32 var.offset,
             extents := if var.dims.isEmpty then [] else var.extents }
  | .label label =>
    return { space := .object, size := label.alignment, offset := label.offset }
  | _ => notAssignable pos

/-- The index of a cell that is `next` in the row numbered `index` of length `extent`. -/
def nextIndex (site : Site) (index : Term) (entry : Term × Nat) : Term :=
  let pos := entry.1.exp.pos
  let extent : Word := BitVec.ofNat 32 entry.2
  let row := site.binaryTerm pos .multiply index
    { exp := .int pos extent, push := Emit.push extent }
  site.binaryTerm pos .add row entry.1

/-- The index of a cell in row-major order. One subscript may stand without dimensions; more
have to be as many as there are dimensions. -/
def subscript (site : Site) (extents : List Nat) : List Term → Except Fault (Option (Emit Unit))
  | [] => .ok none
  | [single] => .ok (some single.push)
  | first :: second :: rest =>
    let terms := first :: second :: rest
    match terms[extents.length]? with
    | some extra => .error { cause := .tooManySubscripts, pos := extra.exp.pos }
    | none =>
      if terms.length < extents.length then
        .error { cause := .tooFewSubscripts, pos := ((second :: rest).getLastD second).exp.pos }
      else
        .ok (some (((second :: rest).zip extents.tail).foldl site.nextIndex first).push)

/-- Accesses a cell with a size override or subscripts. Only in the frame may the override be
larger than the cell. -/
def accessVariable (site : Site) (pos : Pos) (name : String) (size : Option Size)
    (indices : List Term) (access : Access) : Emit Unit := do
  let cell ← site.cellNamed pos name
  let bytes := (size.map Size.bytes).getD cell.size
  if cell.space ≠ .frame ∧ cell.size < bytes then failAt pos .overrideTooLarge
  else
    let index ← liftM (site.subscript cell.extents indices)
    accessCell pos access bytes cell.space cell.offset index

/-- The bytes of the cell that an expression names, as the increments and decrements need
them; registers have no size. -/
def cellSize (site : Site) (e : Exp) : Emit Nat :=
  match e with
  | .name pos name | .cell pos name none _ => do
    let cell ← site.cellNamed pos name
    return cell.size
  | .cell _ _ (some size) _ | .memory _ size _ _ => return size.bytes
  | .register _ _ _ => return 0
  | .special _ _ => return 4
  | _ => notAssignable e.pos

/-! ### Calls -/

/-- The method of a name. -/
def methodNamed (site : Site) (name : String) (pos : Pos) : Emit Method := do
  match ← site.lookup name pos with
  | .method method => return method
  | _ => failAt pos (.notAMethod name)

/-- The number of arguments has to be that of the parameters. -/
def checkArguments (method : Method) (given : Nat) (pos : Pos) : Emit Unit :=
  if given = method.params.length then return ()
  else failAt pos (.argumentCount given method.params.length)

/-- The opcode that opens the frame of a call. -/
def frameOpcode (trap keep : Bool) : UInt8 :=
  match trap, keep with
  | false, true => 0x00
  | false, false => 0x01
  | true, true => 0x02
  | true, false => 0x03

/-- Calls a method of the object itself. -/
def callOwn (site : Site) (pos : Pos) (name : String) (arguments : Nat) : Emit Unit := do
  let method ← site.methodNamed name pos
  checkArguments method arguments pos
  Emit.code [0x05, lowByte method.index]

/-- Calls a method of a sub-object, of the instance with a given index if there is one. -/
def callSub (site : Site) (pos : Pos) (object name : String) (index : Option (Emit Unit))
    (arguments : Nat) : Emit Unit := do
  match ← site.lookup object pos with
  | .sub sub =>
    match ← site.lookupIn sub.target [] name pos with
    | .method method =>
      if !method.isPublic then failAt pos (.privateMethod method.name.name)
      else
        checkArguments method arguments pos
        match index with
        | none => Emit.code [0x06, lowByte sub.index, lowByte method.index]
        | some push =>
          push
          Emit.code [0x07, lowByte sub.index, lowByte method.index]
    | _ => failAt pos (.memberNotAMethod object name)
  | _ => failAt pos (.callOfNonObject object)

/-- Calls a method. -/
def call (site : Site) (pos : Pos) (object : Option String) (index : Option (Emit Unit))
    (name : String) (arguments : List (Emit Unit)) (trap keep : Bool) : Emit Unit := do
  Emit.opcode (frameOpcode trap keep)
  Emit.all arguments
  match object, index with
  | some object, index => site.callSub pos object name index arguments.length
  | none, none => site.callOwn pos name arguments.length
  | none, some _ => failAt pos .indexWithoutObject

/-- A bare name is a call if it is that of a method. -/
def nameCode (site : Site) (pos : Pos) (name : String) : Code where
  value keep := do
    match ← site.lookup name pos with
    | .method _ => site.call pos none none name [] false keep
    | _ => if keep then site.accessName pos name .load else unused pos
  access := site.accessName pos name

/-! ### Operators -/

/-- The increase of a sized opcode for a cell of the given bytes. -/
def sizeStep (size : Nat) : UInt8 :=
  if size = 1 then 2 else if size = 2 then 4 else if size = 4 then 6 else 0

/-- An operator on one value. Increments and decrements depend on the size of the cell. -/
def unary (site : Site) (pos : Pos) (op : UnaryOp) (operand : Exp) (code : Code)
    (keep : Bool) : Emit Unit := do
  match op.opcode? with
  | none =>
    if !keep then unused pos
    else if op = .addressOf then code.access .address
    else
      code.push
      Emit.code [0x97, 0x00]
  | some opcode =>
    if op.isAssignment then
      code.access .modify
      let step ← if 0x20 ≤ opcode then sizeStep <$> site.cellSize operand else pure 0
      Emit.opcode (if keep then opcode + step + 0x80 else opcode + step)
    else if keep then
      code.push
      Emit.opcode opcode
    else
      code.access .modify
      Emit.opcode (opcode - 0xa0)

/-- The code of an operator on one value. -/
def unaryCode (site : Site) (pos : Pos) (op : UnaryOp) (operand : Exp) (code : Code) : Code :=
  .ofValue pos fun keep =>
    if keep then site.folded (.unary pos op operand) (site.unary pos op operand code true)
    else site.unary pos op operand code false

/-- An assignment, or an operator that assigns its result. -/
def assign (op : Option BinaryOp) (target value : Code) (keep : Bool) : Emit Unit := do
  value.push
  match op, keep with
  | none, false => target.access .store
  | _, _ =>
    target.access .modify
    let opcode := (op.map BinaryOp.assignOpcode).getD 0
    Emit.opcode (if keep then opcode + 0x80 else opcode)

/-! ### Registers and memory -/

/-- Accesses memory at an address, behind the push of an index if there is one. -/
def accessMemory (size : Size) (base : Code) (index : Option Code) (access : Access) :
    Emit Unit := do
  base.push
  match index with
  | some code => code.push
  | none => pure ()
  Emit.opcode (access.throughAddress size.bytes index.isSome)

/-- Accesses bits of a register, which has no address. -/
def accessRegister (pos : Pos) (reg : UInt8) (bits : Bits Code) (access : Access) :
    Emit Unit := do
  if access = .address then failAt pos .addressOfRegister
  else
    match bits with
    | .all => Emit.opcode 0x3f
    | .one bit =>
      bit.push
      Emit.opcode 0x3d
    | .field high low =>
      high.push
      low.push
      Emit.opcode 0x3e
    Emit.opcode ((0x90 : UInt8) + reg + (access.code <<< 5))

/-- Accesses a register by its number, which has no address. -/
def accessSpecial (pos : Pos) (index : Code) (access : Access) : Emit Unit := do
  if access = .address then failAt pos .addressOfSpecial
  else
    index.push
    Emit.opcode ((0x24 : UInt8) + access.code)

/-! ### Built-in operations -/

/-- Pushes a value, or both ends of a range, and writes what follows for each. -/
def rangeItem (single span : Emit Unit) : Range Code → Emit Unit
  | .single code => do
    code.push
    single
  | .span low high => do
    low.push
    high.push
    span

/-- Searches in a list of values. -/
def look (kind : LookKind) (value : Code) (items : List (Range Code)) : Emit Unit := do
  Emit.opcode kind.firstOpcode
  let done ← Emit.newTarget
  Emit.offset done
  value.push
  items.forM (rangeItem (Emit.opcode kind.singleOpcode) (Emit.opcode kind.spanOpcode))
  Emit.opcode 0x0f
  Emit.place done

/-- An operation on locks. Returning a lock gives no value. -/
def lock (pos : Pos) (op : Lock) (args : List Code) (keep : Bool) : Emit Unit := do
  if keep && op = .ret then failAt pos .lockReturnsNothing
  else
    Emit.all (args.map Code.push)
    Emit.opcode (op.opcode keep)

/-- The method of the object itself that an expression names as the code of a new cog, with
the pushes of its arguments. -/
def cogMethod? (site : Site) (e : Exp) (code : Code) : Emit (Option (Method × List (Emit Unit))) :=
  match e with
  | .name _ name =>
    match site.lookup? name with
    | some (.method method) => return some (method, [])
    | _ => return none
  | .call pos none _ name _ _ => do
    let method ← site.methodNamed name pos
    return some (method, code.arguments)
  | .call pos (some _) _ _ _ _ => do
    Emit.warn pos "calling a method in another object"
    return none
  | _ => return none

/-- Starts a cog, with a method of the object or with assembly code. A method is pushed as its
slot and its number of parameters. -/
def startCog (site : Site) (pos : Pos) (cog : Option Code) (e : Exp) (code stack : Code)
    (keep : Bool) : Emit Unit := do
  if cog.isSome && keep then failAt pos .coginitReturnsNothing
  else
    match ← site.cogMethod? e code with
    | some (method, arguments) =>
      Emit.all arguments
      Emit.push (BitVec.ofNat 32 (method.index + method.params.length * 256))
      stack.push
      Emit.opcode 0x15
      match cog with
      | some cog =>
        cog.push
        Emit.code [0x3f, 0x8f, 0x37, 0x61, 0xd1]
      | none => pure ()
    | none =>
      match cog with
      | some cog => cog.push
      | none => Emit.opcode 0x34
      code.push
      stack.push
    Emit.opcode (if keep then 0x28 else 0x2c)

/-- Pushes the hub address of a label. -/
def pushAbsolute (site : Site) (pos : Pos) (name : String) : Emit Unit := do
  match ← site.lookup name pos with
  | .label label => Emit.push (BitVec.ofNat 32 (label.offset + site.object.hubAddress))
  | _ => failAt pos (.addressNotALabel name)

end Site

/-! ### Expressions -/

mutual

/-- The code of an expression. -/
def Exp.code (site : Site) : Exp → Code
  | .int pos w => .ofPush pos (site.pushConstant (.int pos w))
  | .float pos x => .ofPush pos (site.pushConstant (.float pos x))
  | .name pos n => site.nameCode pos n
  | .cell pos n none [] => site.nameCode pos n
  | .cell pos n size indices =>
    .ofAccess pos (site.accessVariable pos n size (Exp.terms site indices))
  | .member pos object n => .ofPush pos (site.pushConstant (.member pos object n))
  | .memory pos size base index =>
    .ofAccess pos (Site.accessMemory size (base.code site) (Exp.code? site index))
  | .call pos object index method args trap =>
    let arguments := (Exp.codes site args).map Code.push
    let index := (Exp.code? site index).map Code.push
    { Code.ofValue pos (site.call pos object index method arguments trap) with arguments }
  | .unary pos op operand => site.unaryCode pos op operand (operand.code site)
  | .binary pos op left right =>
    .ofPush pos (site.binaryTerm pos op ⟨left, (left.code site).push⟩
      ⟨right, (right.code site).push⟩).push
  | .assign pos op target value =>
    .ofValue pos (Site.assign op (target.code site) (value.code site))
  | .look pos kind value items =>
    .ofPush pos (Site.look kind (value.code site) (Exp.rangeCodes site items))
  | .register pos reg .all => .ofAccess pos (Site.accessRegister pos reg .all)
  | .register pos reg (.one bit) =>
    .ofAccess pos (Site.accessRegister pos reg (.one (bit.code site)))
  | .register pos reg (.field high low) =>
    .ofAccess pos (Site.accessRegister pos reg (.field (high.code site) (low.code site)))
  | .special pos index => .ofAccess pos (Site.accessSpecial pos (index.code site))
  | .readOnly pos source => .ofPush pos (Emit.code source.code)
  | .convert pos conversion operand =>
    .ofPush pos (site.pushConstant (.convert pos conversion operand))
  | .constant pos operand => .ofPush pos (site.pushConstant (.constant pos operand))
  | .string pos text => .ofPush pos (Emit.string text)
  | .cog pos which e stack =>
    .ofValue pos (site.startCog pos (Exp.code? site which) e (e.code site) (stack.code site))
  | .stringCompare pos left right => .ofPush pos do
    (left.code site).push
    (right.code site).push
    Emit.opcode 0x17
  | .stringSize pos operand => .ofPush pos do
    (operand.code site).push
    Emit.opcode 0x16
  | .lock pos op args => .ofValue pos (Site.lock pos op (Exp.codes site args))
  | .here pos => .ofPush pos (failAt pos .hereOutsideDat)
  | .absolute pos n => .ofPush pos (site.pushAbsolute pos n)

/-- The codes of expressions. -/
def Exp.codes (site : Site) : List Exp → List Code
  | [] => []
  | e :: rest => e.code site :: Exp.codes site rest

/-- The expressions with the pushes of their values. -/
def Exp.terms (site : Site) : List Exp → List Term
  | [] => []
  | e :: rest => ⟨e, (e.code site).push⟩ :: Exp.terms site rest

/-- The code of an optional expression. -/
def Exp.code? (site : Site) : Option Exp → Option Code
  | none => none
  | some e => some (e.code site)

/-- The codes of values and ranges. -/
def Exp.rangeCodes (site : Site) : List (Range Exp) → List (Range Code)
  | [] => []
  | .single e :: rest => .single (e.code site) :: Exp.rangeCodes site rest
  | .span low high :: rest =>
    .span (low.code site) (high.code site) :: Exp.rangeCodes site rest

end

/-- Pushes the value of an expression. -/
def Exp.push (site : Site) (e : Exp) : Emit Unit := (e.code site).push

/-- Evaluates an expression for its effect. -/
def Exp.run (site : Site) (e : Exp) : Emit Unit := (e.code site).value false

/-- Accesses the cell that an expression names. -/
def Exp.access (site : Site) (e : Exp) (access : Access) : Emit Unit := (e.code site).access access

end SpinHub
