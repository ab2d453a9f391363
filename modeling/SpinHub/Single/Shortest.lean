import SpinHub.Single
import SpinHub.Numeral

/-!
# The shortest decimal of a single

A finite single is `m * 2 ^ q`. The decimals that read back as it are those nearer to it
than to its neighbours, the ends counted in when `m` is even. `shortestDigits` takes the
first power-of-ten grid, from coarse to fine, that has a point among them. The text of a
single writes these digits plainly from 0.0001 up to 10 ^ 16 and with a power of ten
elsewhere.
-/

namespace SpinHub.Single

/-- The whole number `m` of a finite single `m * 2 ^ q`. -/
def significand (x : Single) : Nat :=
  if x.exponentField = 0 then x.fractionField else x.fractionField + 0x800000

/-- The power `q` of a finite single `m * 2 ^ q`. -/
def binaryExponent (x : Single) : Int :=
  if x.exponentField = 0 then -149 else x.exponentField - 150

/-- The numbers that round to a single, as multiples of `1 / scale`: the value itself, the two
ends and whether the ends count. -/
structure Interval where
  value : Nat
  low : Nat
  high : Nat
  scale : Nat
  closed : Bool

/-- The numbers that round to a finite single that is not zero. Just below a power of two the
neighbours lie twice as dense. -/
def interval (x : Single) : Interval :=
  let m := x.significand
  let below := if x.fractionField = 0 ∧ 1 < x.exponentField then 1 else 2
  let q := x.binaryExponent - 2
  let factor := 1 <<< q.toNat
  { value := 4 * m * factor, low := (4 * m - below) * factor, high := (4 * m + 2) * factor,
    scale := 1 <<< (-q).toNat, closed := m % 2 = 0 }

namespace Interval

/-- The interval in units of `10 ^ g`. -/
def inUnits (i : Interval) (g : Int) : Interval :=
  let up := Nat.pow 10 (-g).toNat
  { value := i.value * up, low := i.low * up, high := i.high * up,
    scale := i.scale * Nat.pow 10 g.toNat, closed := i.closed }

/-- Whether the whole number `n` lies in the interval. -/
def contains (i : Interval) (n : Nat) : Bool :=
  let p := n * i.scale
  if i.closed then i.low ≤ p ∧ p ≤ i.high else i.low < p ∧ p < i.high

/-- The whole number in the interval nearest to its value, upward in a tie, if one of the two
around the value lies in it. -/
def nearest? (i : Interval) : Option Nat :=
  let d := i.value / i.scale
  let low := i.contains d
  let high := i.contains (d + 1)
  if high ∧ (low = false ∨ (2 * d + 1) * i.scale ≤ 2 * i.value) then some (d + 1)
  else if low then some d
  else none

/-- The least power of ten above the value. -/
def magnitude (i : Interval) : Int :=
  let above (n : Nat) : Option Int :=
    let j := i.inUnits (n - 46 : Int)
    if j.value < j.scale then some (n - 46 : Int) else none
  (List.range 90).findSome? above |>.getD 0

end Interval

/-- The shortest decimal of a finite single that is not zero, as digits and a power of ten. -/
def shortestDigits (x : Single) : Nat × Int :=
  let i := x.interval
  let k := i.magnitude
  let grid (n : Nat) : Option (Nat × Int) :=
    let g := k - (n + 1)
    (i.inUnits g).nearest?.map fun d => (d, g)
  (List.range 9).findSome? grid |>.getD (0, 0)

/-- The numeral of `digits * 10 ^ power`: plain from 0.0001 up to 10 ^ 16, with at least one
digit after the point, and otherwise with a power of ten. -/
def numeralOf (negative : Bool) (digits : List Char) (power : Int) : Numeral :=
  let point : Int := digits.length + power
  if -3 ≤ point ∧ point ≤ 16 then
    if point ≤ 0 then
      { negative, whole := ['0'], fraction := List.replicate (-point).toNat '0' ++ digits }
    else if 0 ≤ power then
      { negative, whole := digits ++ List.replicate power.toNat '0', fraction := ['0'] }
    else
      { negative, whole := digits.take point.toNat, fraction := digits.drop point.toNat }
  else
    { negative, whole := digits.take 1, fraction := digits.drop 1, exponent := some (point - 1) }

/-- The numeral of a finite single. -/
def numeral (x : Single) : Numeral :=
  if x.significand = 0 then { negative := x.isNegative, whole := ['0'], fraction := ['0'] }
  else
    let (digits, power) := x.shortestDigits
    let written := Nat.toDigits 10 digits
    let kept := (written.reverse.dropWhile (· = '0')).reverse
    numeralOf x.isNegative kept (power + (written.length - kept.length : Nat))

/-- The text of a single. -/
def text (x : Single) : String :=
  if x.isFinite then x.numeral.text
  else if x.isNaN then "NaN"
  else if x.isNegative then "-inf"
  else "inf"

end SpinHub.Single
