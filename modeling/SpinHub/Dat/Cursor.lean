import SpinHub.Build
import SpinHub.Dat.Instruction

/-!
# The DAT cursor

A cursor walks over the entries of a DAT section. It knows the offset in the object and the
difference between the cog address and that offset. `Step.place` says where the payload of
an entry starts and where the next entry finds the cursor; it is the same in every pass.
-/

namespace SpinHub

/-- The largest cog address in bytes, in either direction. -/
def cogLimit : Int := 0x1fffffff

/-- Where a walk stands. -/
structure Cursor where
  /-- Bytes from the start of the object. -/
  offset : Nat
  /-- The cog address in bytes, less the offset. -/
  shift : Int
  alignment : Nat := 1
  /-- No cog addresses are counted since ORGX. -/
  orgx : Bool := false
  /-- Nothing that takes space is expected after RES. -/
  afterRes : Bool := false
deriving DecidableEq

/-- The passes over a DAT section. -/
inductive Pass where
  /-- Places labels and measures the section. -/
  | measure
  /-- Writes the bytes of the section. -/
  | write
deriving DecidableEq

namespace Cursor

/-- The cursor in front of the first entry. -/
def start (headerSize : Nat) : Cursor := { offset := headerSize, shift := -headerSize }

/-- The cog address in bytes. -/
def cog (cursor : Cursor) : Int := if cursor.orgx then 0 else cursor.offset + cursor.shift

/-- The cog address in longs, rounded toward zero. -/
def here (cursor : Cursor) : Int := cursor.cog.tdiv 4

/-- The cursor at the next offset of an alignment. -/
def align (cursor : Cursor) (alignment : Nat) : Cursor :=
  { cursor with offset := alignUp cursor.offset alignment }

/-- The cursor at the next long, as assembly needs it. -/
def alignLong (cursor : Cursor) : Cursor := { cursor.align 4 with alignment := 4 }

/-- The cursor with a cog address in bytes for its offset. -/
def setCog (cursor : Cursor) (pos : Pos) (cog : Int) : Except Fault Cursor :=
  if -cogLimit ≤ cog ∧ cog ≤ cogLimit then .ok { cursor with shift := cog - cursor.offset }
  else .error { cause := .cogAddressOutOfRange, pos }

/-- The cursor behind some bytes, which must end within a limit. -/
def advance (cursor : Cursor) (pos : Pos) (bytes limit : Nat) : Except Fault Cursor :=
  if cursor.offset + bytes ≤ limit then .ok { cursor with offset := cursor.offset + bytes }
  else .error { cause := .datTooLarge limit, pos }

end Cursor

/-- The offset that a DAT section may reach. -/
def Config.datLimit (config : Config) : Nat := min config.memorySize 0x1fffffff

/-- An entry on the walk: the cursor at its payload and the cursor behind it. -/
structure Placed where
  start : Cursor
  next : Cursor
deriving DecidableEq

/-- The bytes of a payload. -/
def Placed.length (placed : Placed) : Nat := placed.next.offset - placed.start.offset

namespace Step

/-- Evaluates in object `id` at a cursor. -/
def evaluateAt {α : Type} (id : ObjId) (cursor : Cursor) (action : Site → Eval α) : Step α :=
  evaluateIn id fun site => action { site with here := some cursor.here }

/-- The word of an optional operand at a cursor, or a default. -/
def operandOr (id : ObjId) (cursor : Cursor) (default : Int) (operand : Option Exp) : Step Int :=
  evaluateAt id cursor fun site => site.evalIntOr default operand

/-- Adds a remark in the measuring pass; the writing pass would repeat it. -/
def remark (pass : Pass) (id : ObjId) (pos : Pos) (text : String) : Step Unit :=
  match pass with
  | .measure => warn id pos text
  | .write => return ()

/-- Adds a remark about an entry that takes space after RES. -/
def remarkAfterRes (pass : Pass) (id : ObjId) (cursor : Cursor) (pos : Pos) (text : String) :
    Step Unit :=
  if cursor.afterRes then remark pass id pos text else return ()

/-- The number of repetitions of data. -/
def dataCount (id : ObjId) (cursor : Cursor) (data : DatData) : Step Nat := do
  let count ← operandOr id cursor 1 data.count
  if count < 0 then failAt data.pos (.negativeDataCount count) else return count.toNat

/-- Walks over an entry. -/
def place (config : Config) (pass : Pass) (id : ObjId) (cursor : Cursor) :
    DatEntry → Step Placed
  | .label _ alignment =>
    let start :=
      if alignment = 0 then cursor
      else { cursor.align alignment.toNat with alignment := alignment.toNat }
    return { start, next := start }
  | .org pos origin => do
    let start := cursor.align 4
    let origin ← operandOr id start 0 origin
    let next ← liftM (start.setCog pos (origin * 4))
    return { start, next := { next with orgx := false, alignment := 4, afterRes := false } }
  | .orgx _ =>
    return { start := cursor, next := { cursor with orgx := true, afterRes := false } }
  | .instruction instruction => do
    let start := cursor.alignLong
    remarkAfterRes pass id cursor instruction.pos "assembly language after RES"
    match instruction.jumpMnemonic?, instruction.immediate with
    | some mnemonic, false =>
      remark pass id instruction.pos s!"{mnemonic} with non-immediate operand"
    | _, _ => pure ()
    let next ← liftM (start.advance instruction.pos 4 config.datLimit)
    return { start, next }
  | .res pos count => do
    let start := cursor.alignLong
    let count ← operandOr id start 1 count
    let next ← liftM (start.setCog pos (start.offset + start.shift + count * 4))
    return { start, next := { next with afterRes := true } }
  | .fit pos limit => do
    if cursor.orgx then
      return { start := cursor, next := cursor }
    else
      let limit ← operandOr id cursor config.fitLimit limit
      let cog := (cursor.cog + 3).tdiv 4
      if limit < cog then failAt pos (.originOverflow (cog - limit))
      else return { start := cursor, next := cursor }
  | .file pos bytes => do
    let start := { cursor with alignment := 1 }
    remarkAfterRes pass id cursor pos "FILE after RES"
    let next ← liftM (start.advance pos bytes.length config.datLimit)
    return { start, next }
  | .data data => do
    let alignment := data.alignment.toNat
    if data.size ∉ [1, 2, 4] then failAt data.pos (.badDataSize data.size.toNat)
    else if data.size.toNat < alignment then failAt data.pos .dataBelowAlignment
    else
      let start := cursor.align alignment
      remarkAfterRes pass id cursor data.pos "data after RES"
      let count ← dataCount id start data
      let next ← liftM (start.advance data.pos (data.size.toNat * count) config.datLimit)
      return { start, next := { next with alignment } }

end Step

end SpinHub
