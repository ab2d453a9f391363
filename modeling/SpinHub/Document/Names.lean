import SpinHub.Syntax

/-!
# Names of alternatives

The names under which operators, sizes and the like stand in documents.
-/

namespace SpinHub.Document

/-- The alternatives of a type with their names. -/
abbrev Names (α : Type) := List (String × α)

namespace Names

/-- The alternative of a name. -/
def find? {α : Type} (names : Names α) (name : String) : Option α := names.lookup name

/-- The name of an alternative. -/
def nameOf {α : Type} [DecidableEq α] (names : Names α) (a : α) : String :=
  match List.find? (fun entry => entry.2 = a) names with
  | some (name, _) => name
  | none => ""

end Names

def sizes : Names Size := [("Byte", .byte), ("Word", .word), ("Long", .long)]

def fillMoves : Names FillMove :=
  [("ByteFill", .byteFill), ("WordFill", .wordFill), ("LongFill", .longFill),
   ("ByteMove", .byteMove), ("WordMove", .wordMove), ("LongMove", .longMove)]

def waits : Names Wait :=
  [("Cnt", .count), ("Peq", .pinsEqual), ("Pne", .pinsNotEqual), ("Vid", .video)]

def locks : Names Lock := [("New", .new), ("Ret", .ret), ("Set", .set), ("Clr", .clear)]

def lookKinds : Names LookKind :=
  [("Lookup", .lookup), ("Lookupz", .lookupz), ("Lookdown", .lookdown),
   ("Lookdownz", .lookdownz)]

def readOnlys : Names ReadOnly :=
  [("Chipver", .chipver), ("Clkfreq", .clkfreq), ("Clkmode", .clkmode), ("Cogid", .cogid)]

def conversions : Names Conversion := [("Float", .float), ("Round", .round), ("Trunc", .trunc)]

def binaryOps : Names BinaryOp :=
  [("RotateRight", .rotateRight), ("RotateLeft", .rotateLeft), ("ShiftRight", .shiftRight),
   ("ShiftLeft", .shiftLeft), ("ShiftRightArithmetic", .shiftRightArithmetic),
   ("Reverse", .reverse), ("Max", .max), ("Min", .min), ("BitwiseAnd", .bitwiseAnd),
   ("BitwiseOr", .bitwiseOr), ("BitwiseXor", .bitwiseXor), ("Add", .add),
   ("Subtract", .subtract), ("Multiply", .multiply), ("MultiplyHigh", .multiplyHigh),
   ("Divide", .divide), ("Modulo", .modulo), ("LogicalAnd", .logicalAnd),
   ("LogicalOr", .logicalOr), ("LessThan", .lessThan), ("GreaterThan", .greaterThan),
   ("NotEqual", .notEqual), ("IsEqual", .isEqual), ("LessOrEqual", .lessOrEqual),
   ("GreaterOrEqual", .greaterOrEqual)]

def unaryOps : Names UnaryOp :=
  [("Negate", .negate), ("Complement", .complement), ("Abs", .abs), ("Encode", .encode),
   ("Decode", .decode), ("Sqrt", .sqrt), ("LogicalNot", .logicalNot),
   ("AddressOf", .addressOf), ("ObjectAddress", .objectAddress),
   ("PreIncrement", .preIncrement), ("PostIncrement", .postIncrement),
   ("PreDecrement", .preDecrement), ("PostDecrement", .postDecrement),
   ("SignExtendByte", .signExtendByte), ("PostClear", .postClear),
   ("SignExtendWord", .signExtendWord), ("PostSet", .postSet),
   ("RandomForward", .randomForward), ("RandomReverse", .randomReverse)]

end SpinHub.Document
