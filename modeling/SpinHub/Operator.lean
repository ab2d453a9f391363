import SpinHub.Word

/-!
# Operators

The operators of expressions and the bytecodes that carry them out.
-/

namespace SpinHub

/-- Operators on two values. -/
inductive BinaryOp where
  | rotateRight
  | rotateLeft
  | shiftRight
  | shiftLeft
  | shiftRightArithmetic
  | reverse
  | max
  | min
  | bitwiseAnd
  | bitwiseOr
  | bitwiseXor
  | add
  | subtract
  | multiply
  | multiplyHigh
  | divide
  | modulo
  | logicalAnd
  | logicalOr
  | lessThan
  | greaterThan
  | notEqual
  | isEqual
  | lessOrEqual
  | greaterOrEqual
deriving DecidableEq

namespace BinaryOp

/-- The opcode that replaces the two values on top of the stack by the result. -/
def opcode : BinaryOp → UInt8
  | .rotateRight => 0xe0
  | .rotateLeft => 0xe1
  | .shiftRight => 0xe2
  | .shiftLeft => 0xe3
  | .max => 0xe4
  | .min => 0xe5
  | .bitwiseAnd => 0xe8
  | .bitwiseOr => 0xea
  | .bitwiseXor => 0xeb
  | .add => 0xec
  | .subtract => 0xed
  | .shiftRightArithmetic => 0xee
  | .reverse => 0xef
  | .logicalAnd => 0xf0
  | .logicalOr => 0xf2
  | .multiply => 0xf4
  | .multiplyHigh => 0xf5
  | .divide => 0xf6
  | .modulo => 0xf7
  | .lessThan => 0xf9
  | .greaterThan => 0xfa
  | .notEqual => 0xfb
  | .isEqual => 0xfc
  | .lessOrEqual => 0xfd
  | .greaterOrEqual => 0xfe

/-- The opcode of the assigning form, applied through a modifying access. -/
def assignOpcode (op : BinaryOp) : UInt8 := op.opcode - 0xa0

end BinaryOp

/-- Operators on one value. -/
inductive UnaryOp where
  | negate
  | complement
  | abs
  | encode
  | decode
  | sqrt
  | logicalNot
  /-- The address of a variable. -/
  | addressOf
  /-- An offset within the object made an address. -/
  | objectAddress
  | preIncrement
  | postIncrement
  | preDecrement
  | postDecrement
  | signExtendByte
  | postClear
  | signExtendWord
  | postSet
  | randomForward
  | randomReverse
deriving DecidableEq

namespace UnaryOp

/-- The opcode of an operator; the address operators have none of their own. -/
def opcode? : UnaryOp → Option UInt8
  | .negate => some 0xe6
  | .complement => some 0xe7
  | .abs => some 0xe9
  | .encode => some 0xf1
  | .decode => some 0xf3
  | .sqrt => some 0xf8
  | .logicalNot => some 0xff
  | .addressOf | .objectAddress => none
  | .preIncrement => some 0x20
  | .postIncrement => some 0x28
  | .preDecrement => some 0x30
  | .postDecrement => some 0x38
  | .signExtendByte => some 0x10
  | .postClear => some 0x18
  | .signExtendWord => some 0x14
  | .postSet => some 0x1c
  | .randomForward => some 0x08
  | .randomReverse => some 0x0c

/-- Whether an operator changes its operand in place. -/
def isAssignment (op : UnaryOp) : Bool :=
  match op.opcode? with
  | some opcode => opcode < 0x40
  | none => false

end UnaryOp

/-- Operations that fill or move a run of cells. -/
inductive FillMove where
  | byteFill
  | wordFill
  | longFill
  | byteMove
  | wordMove
  | longMove
deriving DecidableEq

/-- The opcode of a fill or move. -/
def FillMove.opcode : FillMove → UInt8
  | .byteFill => 0x18
  | .wordFill => 0x19
  | .longFill => 0x1a
  | .byteMove => 0x1c
  | .wordMove => 0x1d
  | .longMove => 0x1e

/-- Operations that wait for the counter, the pins or the video generator. -/
inductive Wait where
  | count
  | pinsEqual
  | pinsNotEqual
  | video
deriving DecidableEq

/-- The opcode of a wait. -/
def Wait.opcode : Wait → UInt8
  | .count => 0x23
  | .pinsEqual => 0x1b
  | .pinsNotEqual => 0x1f
  | .video => 0x27

/-- Operations on locks. -/
inductive Lock where
  | new
  | ret
  | set
  | clear
deriving DecidableEq

/-- The opcode of a lock operation, by whether its value is kept. -/
def Lock.opcode : Lock → Bool → UInt8
  | .clear, true => 0x2b
  | .clear, false => 0x2f
  | .new, true => 0x29
  | .new, false => 0x2d
  | .set, true => 0x2a
  | .set, false => 0x2e
  | .ret, _ => 0x22

/-- Searches in a list of values, by position or for a value, from one or from zero. -/
inductive LookKind where
  | lookup
  | lookupz
  | lookdown
  | lookdownz
deriving DecidableEq

namespace LookKind

/-- The push of the first position. -/
def firstOpcode : LookKind → UInt8
  | .lookup | .lookdown => 0x36
  | .lookupz | .lookdownz => 0x35

/-- The opcode of a single item. -/
def singleOpcode : LookKind → UInt8
  | .lookup | .lookupz => 0x10
  | .lookdown | .lookdownz => 0x11

/-- The opcode of a range of items. -/
def spanOpcode : LookKind → UInt8
  | .lookup | .lookupz => 0x12
  | .lookdown | .lookdownz => 0x13

end LookKind

/-- Values the chip provides. -/
inductive ReadOnly where
  | chipver
  | clkfreq
  | clkmode
  | cogid
deriving DecidableEq

/-- The code that loads a value the chip provides. -/
def ReadOnly.code : ReadOnly → Bytes
  | .chipver => [0x34, 0x80]
  | .clkfreq => [0x35, 0xc0]
  | .clkmode => [0x38, 0x04, 0x80]
  | .cogid => [0x3f, 0x89]

/-- Conversions between words and singles in constant expressions. -/
inductive Conversion where
  | float
  | round
  | trunc
deriving DecidableEq

end SpinHub
