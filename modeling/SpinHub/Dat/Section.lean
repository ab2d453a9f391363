import SpinHub.Dat.Cursor

/-!
# DAT sections

A DAT section is walked twice. The first pass gives every label its offset and its cog
address and finds the size of the section; the second checks that the labels stand where
they stood, and writes the bytes.
-/

namespace SpinHub

/-- The label of an entry at a cursor. -/
def Cursor.label (cursor : Cursor) (name : Ident) : Label :=
  { name, alignment := cursor.alignment, offset := cursor.offset, cog := cursor.cog }

/-- The label that local labels belong to after a label. -/
def Object.passLabel (object : Object) (name : String) : Object :=
  if isLocalLabel name then object else { object with latestLabel := name }

/-- The label that object `id` has under the key of a name. -/
def Object.labelOf? (object : Object) (name : String) : Option Label :=
  match object.find? (object.key name) with
  | some (.label index) => object.labels[index]?
  | _ => none

namespace DatData

/-- The bytes of one repetition of a value. -/
def unit (data : DatData) (value : Value) : Bytes :=
  value.bits.littleEndian.take data.size.toNat

/-- Whether bits of a word are lost; a negative word always loses some in bytes and words. -/
def truncates (data : DatData) (value : Value) : Bool :=
  match value with
  | .int w => data.size.toNat < 4 && (w >>> (8 * data.size.toNat)) != 0
  | .float _ => false

end DatData

namespace Step

/-! ### Measuring -/

/-- Adds the label of an entry. -/
def declareLabel (id : ObjId) (start : Cursor) (name : Ident) : Step Unit := do
  let object ← object id
  declare id (.label (object.key name.name) (start.label name))
  modifyObject id (·.passLabel name.name)

/-- Measures the entries from a cursor on, and returns the cursor behind them. -/
def measureFrom (config : Config) (id : ObjId) : Cursor → List DatEntry → Step Cursor
  | cursor, [] => return cursor
  | cursor, entry :: rest => do
    let placed ← place config .measure id cursor entry
    match entry with
    | .label name _ => declareLabel id placed.start name
    | _ => pure ()
    measureFrom config id placed.next rest

/-! ### Writing -/

/-- Checks that the label of an entry stands where it was declared. -/
def checkLabel (id : ObjId) (start : Cursor) (name : Ident) : Step Unit := do
  let object ← object id
  match object.labelOf? name.name with
  | none => failAt name.pos (.unknownSymbol name.name)
  | some label =>
    if label.offset ≠ start.offset ∨ label.cog ≠ start.cog then
      failAt name.pos (.labelMoved name.name)
    else
      modifyObject id (·.passLabel name.name)

/-- The bytes of data, as often as it was given room for. -/
def dataBytes (id : ObjId) (placed : Placed) (data : DatData) : Step Bytes := do
  let value ← evaluateAt id placed.start fun site => site.eval data.value
  if !value.isInt && data.size != 4 then failAt data.value.pos .floatInNarrowData
  else
    if data.truncates value then warn id data.value.pos "data truncation"
    return (List.replicate (placed.length / data.size.toNat) (data.unit value)).flatten

/-- The bytes of an entry. -/
def payload (id : ObjId) (placed : Placed) : DatEntry → Step Bytes
  | .label name _ => do
    checkLabel id placed.start name
    return []
  | .instruction instruction => do
    let word ← evaluateAt id placed.start instruction.assemble
    return Word.littleEndian word
  | .file _ bytes => return bytes
  | .data data => dataBytes id placed data
  | .org _ _ | .orgx _ | .res _ _ | .fit _ _ => return []

/-- Writes the entries from a cursor on over a block that starts at `base`. -/
def writeFrom (config : Config) (id : ObjId) (base : Nat) :
    Cursor → Bytes → List DatEntry → Step Bytes
  | _, block, [] => return block
  | cursor, block, entry :: rest => do
    let placed ← place config .write id cursor entry
    let bytes ← payload id placed entry
    let block := block.overwrite (placed.start.offset - base) bytes
    writeFrom config id base placed.next block rest

/-! ### The passes -/

/-- Forgets the latest label, as no label stands before the first entry. -/
def clearLatest (id : ObjId) : Step Unit :=
  modifyObject id fun object => { object with latestLabel := "" }

/-- Places the labels of an object and measures its DAT section. -/
def measureDat (config : Config) (id : ObjId) : Step Unit := inObject id do
  clearLatest id
  let object ← object id
  let cursor ← measureFrom config id (.start object.headerSize) object.dat
  modifyObject id fun object =>
    { object with datBytes := List.replicate (cursor.offset - object.headerSize) 0 }

/-- Writes the DAT section of an object. -/
def writeDat (config : Config) (id : ObjId) : Step Unit := inObject id do
  clearLatest id
  let object ← object id
  let blank := List.replicate object.datBytes.length 0
  let bytes ← writeFrom config id object.headerSize (.start object.headerSize) blank object.dat
  modifyObject id fun object => { object with datBytes := bytes }

end Step

end SpinHub
