import SpinHub.Error
import SpinHub.Operator
import SpinHub.Single.Shortest

/-!
# Constant values

A constant expression has a word or a single as its value. The two kinds never mix in an
operator. Operators on words follow the interpreter.
-/

namespace SpinHub

/-- The value of a constant expression. -/
inductive Value where
  | int (value : Word)
  | float (value : Single)
deriving DecidableEq

namespace Value

/-- The word that is pushed for a value. -/
def bits : Value → Word
  | int w => w
  | float x => x.bits

def isInt : Value → Bool
  | int _ => true
  | float _ => false

/-- The word of a value that must be one. -/
def toWord : Value → Except Cause Word
  | int w => .ok w
  | float _ => .error .floatWhereInt

/-- The single of a value that must be one. -/
def toSingle : Value → Except Cause Single
  | float x => .ok x
  | int _ => .error .intWhereFloat

/-- The text of a value. -/
def text : Value → String
  | int w => toString w.toInt
  | float x => x.text

end Value

/-! ### Operators on words -/

namespace Word

/-- One step of a reversal: the low bit of the source moves to the low end of the result. -/
def reverseStep (state : Word × Word) : Word × Word :=
  (state.1 <<< 1 ||| (state.2 &&& 1), state.2.sshiftRight 1)

/-- The low `n` bits in reverse order, as `n` steps; past 64 steps nothing changes. -/
def reverse (w : Word) (n : Nat) : Word :=
  (Nat.repeat reverseStep (min n 64) (0, w)).1

/-- The number of bits up to the highest set one. -/
def bitLength (w : Word) : Nat := if w = 0 then 0 else Nat.log2 w.toNat + 1

/-- The result of an operator on one word. -/
def unary (op : UnaryOp) (w : Word) : Except Cause Word :=
  match op with
  | .sqrt => .ok (BitVec.ofNat 32 (Nat.sqrt w.toNat))
  | .abs => .ok w.abs
  | .decode => .ok (1 <<< (w.toNat % 32))
  | .encode => .ok (BitVec.ofNat 32 (bitLength w))
  | .complement => .ok (~~~w)
  | .logicalNot => .ok (ofBool (w = 0))
  | .negate => .ok (-w)
  | .addressOf | .objectAddress | .preIncrement | .postIncrement | .preDecrement
  | .postDecrement | .signExtendByte | .postClear | .signExtendWord | .postSet
  | .randomForward | .randomReverse => .error .badOperator

/-- The result of an operator on two words. Counts of rotations, right shifts and reversals
below one leave the word alone; the count of a left shift is taken modulo 32. -/
def binary (op : BinaryOp) (a b : Word) : Except Cause Word :=
  let count := b.toInt.toNat
  match op with
  | .rotateRight => .ok (a.rotateRight count)
  | .rotateLeft => .ok (a.rotateLeft count)
  | .shiftRight => .ok (a >>> count)
  | .shiftLeft => .ok (a <<< (b.toNat % 32))
  | .shiftRightArithmetic => .ok (a.sshiftRight count)
  | .reverse => .ok (a.reverse count)
  | .bitwiseAnd => .ok (a &&& b)
  | .bitwiseOr => .ok (a ||| b)
  | .bitwiseXor => .ok (a ^^^ b)
  | .multiply => .ok (a * b)
  | .multiplyHigh => .ok (BitVec.ofInt 32 (a.toInt * b.toInt / 0x100000000))
  | .divide => if b = 0 then .error .divideByZero else .ok (a.sdiv b)
  | .modulo => if b = 0 then .error .divideByZero else .ok (a.srem b)
  | .add => .ok (a + b)
  | .subtract => .ok (a - b)
  | .max => .ok (if a.slt b then b else a)
  | .min => .ok (if b.slt a then b else a)
  | .lessThan => .ok (ofBool (a.slt b))
  | .greaterThan => .ok (ofBool (b.slt a))
  | .notEqual => .ok (ofBool (a != b))
  | .isEqual => .ok (ofBool (a == b))
  | .lessOrEqual => .ok (ofBool (a.sle b))
  | .greaterOrEqual => .ok (ofBool (b.sle a))
  | .logicalAnd => .ok (ofBool (a != 0 && b != 0))
  | .logicalOr => .ok (ofBool (a != 0 || b != 0))

end Word

/-! ### Operators on singles -/

namespace Single

/-- The result of an operator on one single. -/
def unary (op : UnaryOp) (x : Single) : Except Cause Single :=
  match op with
  | .sqrt => .ok x.sqrt
  | .abs => .ok x.abs
  | .logicalNot => .ok (ofBool (x.beq zero))
  | .negate => .ok x.neg
  | .complement | .encode | .decode | .addressOf | .objectAddress | .preIncrement
  | .postIncrement | .preDecrement | .postDecrement | .signExtendByte | .postClear
  | .signExtendWord | .postSet | .randomForward | .randomReverse => .error .badOperator

/-- The result of an operator on two singles. -/
def binary (op : BinaryOp) (a b : Single) : Except Cause Single :=
  match op with
  | .multiply => .ok (a.mul b)
  | .divide => .ok (a.div b)
  | .add => .ok (a.add b)
  | .subtract => .ok (a.sub b)
  | .max => .ok (a.max b)
  | .min => .ok (a.min b)
  | .lessThan => .ok (ofBool (a.lt b))
  | .greaterThan => .ok (ofBool (b.lt a))
  | .notEqual => .ok (ofBool (!a.beq b))
  | .isEqual => .ok (ofBool (a.beq b))
  | .lessOrEqual => .ok (ofBool (a.le b))
  | .greaterOrEqual => .ok (ofBool (b.le a))
  | .logicalAnd => .ok (ofBool (!a.beq zero && !b.beq zero))
  | .logicalOr => .ok (ofBool (!a.beq zero || !b.beq zero))
  | .rotateRight | .rotateLeft | .shiftRight | .shiftLeft | .shiftRightArithmetic | .reverse
  | .bitwiseAnd | .bitwiseOr | .bitwiseXor | .multiplyHigh | .modulo => .error .badOperator

end Single

/-! ### Operators on values -/

namespace Value

/-- The result of an operator on one value. -/
def unary (op : UnaryOp) : Value → Except Cause Value
  | int w => (w.unary op).map int
  | float x => (x.unary op).map float

/-- The result of an operator on two values of one kind. -/
def binary (op : BinaryOp) : Value → Value → Except Cause Value
  | int a, int b => (a.binary op b).map int
  | float a, float b => (a.binary op b).map float
  | _, _ => .error .mixedOperands

/-- The result of a conversion. -/
def convert (conversion : Conversion) (v : Value) : Except Cause Value :=
  match conversion with
  | .float => v.toWord.map fun w => float (.ofWord w)
  | .round => v.toSingle.map fun x => int x.round
  | .trunc => v.toSingle.map fun x => int x.truncate

end Value

end SpinHub
