/-!
# Decimal numerals

A numeral is a number as it is written: a sign, the digits before the point, the digits
after it if there is one, and a power of ten if one is given. It keeps what the value
forgets, such as whether a whole number was written with a point.
-/

namespace SpinHub

/-- A written number. A numeral with a point has at least one digit after it. -/
structure Numeral where
  negative : Bool := false
  whole : List Char
  fraction : List Char := []
  exponent : Option Int := none
deriving DecidableEq

/-- The number a digit stands for. -/
def digitValue (c : Char) : Nat := c.toNat - '0'.toNat

/-- The number a run of digits stands for. -/
def digitsValue (digits : List Char) : Nat :=
  digits.foldl (fun n c => 10 * n + digitValue c) 0

namespace Numeral

/-- The digits of a whole number. -/
def ofNat (n : Nat) : Numeral where
  whole := Nat.toDigits 10 n

/-- A whole number with its sign. -/
def ofInt (n : Int) : Numeral where
  negative := n < 0
  whole := Nat.toDigits 10 n.natAbs

/-- The whole number a numeral is written as: it has no point and no power of ten, and it is
not zero with a minus sign. -/
def toInt? (n : Numeral) : Option Int :=
  if n.fraction.isEmpty ∧ n.exponent = none then
    let value := digitsValue n.whole
    if n.negative then if value = 0 then none else some (-value) else some value
  else none

/-- The characters of a numeral. -/
def chars (n : Numeral) : List Char :=
  (if n.negative then ['-'] else []) ++ n.whole ++
  (if n.fraction.isEmpty then [] else '.' :: n.fraction) ++
  match n.exponent with
  | none => []
  | some e => 'e' :: (if e < 0 then ['-'] else []) ++ Nat.toDigits 10 e.natAbs

/-- The text of a numeral. -/
def text (n : Numeral) : String := String.ofList n.chars

end Numeral

end SpinHub
