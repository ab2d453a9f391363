import SpinHub.Single
import SpinHub.Numeral

/-!
# Reading a single

A whole number that fits 64 bits is rounded to a single at once. Any other numeral is read
as a double first: its leading digits, as many as fit 64 bits, are scaled by one power of
ten, and the double is then rounded to a single. A numeral too large for a double is
refused.
-/

namespace SpinHub.Single

/-- The largest number of 64 bits. -/
def digitLimit : Nat := 0xffffffffffffffff

/-- Reads digits while the number fits 64 bits: the number and the digits left. -/
def leadingDigits (n : Nat) : List Char → Nat × List Char
  | [] => (n, [])
  | c :: rest =>
    let next := 10 * n + digitValue c
    if next ≤ digitLimit then leadingDigits next rest else (n, c :: rest)

/-- The leading digits of a numeral and the power of ten that scales them. -/
def scaled (n : Numeral) : Nat × Int :=
  let (whole, dropped) := leadingDigits 0 n.whole
  let (digits, rest) := leadingDigits whole n.fraction
  (digits, (dropped.length : Int) - (n.fraction.length - rest.length : Nat))

/-- The double nearest to `10 ^ e`. -/
def powerOfTen (e : Nat) : Float := Float.ofScientific 1 false e

/-- A double divided by `10 ^ e`, in steps that a double can hold. -/
def divideByPower (f : Float) (e : Nat) : Float :=
  if e ≤ 308 then f / powerOfTen e
  else if f == 0 then f
  else divideByPower (f / powerOfTen 308) (e - 308)
termination_by e

/-- A double times `10 ^ e`, if that is finite. -/
def scaleByPower? (f : Float) (e : Int) : Option Float :=
  if e < 0 then some (divideByPower f e.natAbs)
  else if e ≤ 308 then
    let product := f * powerOfTen e.natAbs
    if product.isInf then none else some product
  else if f == 0 then some f
  else none

/-- The size of a numeral as a double, if it is finite. A power of ten beyond 31 bits counts as
infinitely large or small. -/
def magnitude? (n : Numeral) : Option Float :=
  let (digits, power) := scaled n
  let e := n.exponent.getD 0
  if e.natAbs < 0x80000000 then scaleByPower? (Float.ofNat digits) (power + e)
  else if digits ≠ 0 ∧ 0 < e then none
  else some 0

/-- The single that a numeral is read as. -/
def ofNumeral? (n : Numeral) : Option Single :=
  let whole := digitsValue n.whole
  if n.fraction.isEmpty ∧ n.exponent = none ∧ n.negative = false ∧ whole ≤ digitLimit then
    some (ofFloat (UInt64.ofNat whole).toFloat32)
  else if n.fraction.isEmpty ∧ n.exponent = none ∧ 0 < whole ∧ whole ≤ 0x8000000000000000 then
    some (ofFloat (Int64.ofInt (-whole)).toFloat32)
  else (magnitude? n).map fun f => ofFloat (if n.negative then -f else f).toFloat32

end SpinHub.Single
