import SpinHub.Word

/-!
# Single-precision numbers

A single is kept as the 32 bits that are stored for it, so that every pattern survives
being read and written; the arithmetic is that of IEEE 754.
-/

namespace SpinHub

/-- A single-precision number, as its bits. -/
structure Single where
  bits : Word
deriving DecidableEq

namespace Single

/-! ### Bits -/

/-- The number that the bits stand for. -/
def toFloat (x : Single) : Float32 := Float32.ofBits (UInt32.ofBitVec x.bits)

/-- The bits of a number. -/
def ofFloat (x : Float32) : Single := ⟨x.toBits.toBitVec⟩

/-- The sign bit. -/
def isNegative (x : Single) : Bool := x.bits.msb

/-- The biased exponent. -/
def exponentField (x : Single) : Nat := x.bits.toNat / 0x800000 % 0x100

/-- The fraction bits. -/
def fractionField (x : Single) : Nat := x.bits.toNat % 0x800000

/-- Neither infinite nor a NaN. -/
def isFinite (x : Single) : Bool := x.exponentField != 255

/-- Not a number. -/
def isNaN (x : Single) : Bool := x.exponentField == 255 && x.fractionField != 0

/-! ### Arithmetic -/

def zero : Single := ⟨0⟩
def one : Single := ofFloat 1
/-- The ratio of a circle's circumference to its diameter. -/
def pi : Single := ⟨0x40490fdb⟩

def add (a b : Single) : Single := ofFloat (a.toFloat + b.toFloat)
def sub (a b : Single) : Single := ofFloat (a.toFloat - b.toFloat)
def mul (a b : Single) : Single := ofFloat (a.toFloat * b.toFloat)
def div (a b : Single) : Single := ofFloat (a.toFloat / b.toFloat)
def sqrt (a : Single) : Single := ofFloat a.toFloat.sqrt

/-- The number with its sign changed. -/
def neg (a : Single) : Single := ⟨a.bits ^^^ 0x80000000⟩

/-- The number without its sign. -/
def abs (a : Single) : Single := ⟨a.bits &&& 0x7fffffff⟩

def beq (a b : Single) : Bool := a.toFloat == b.toFloat
def lt (a b : Single) : Bool := decide (a.toFloat < b.toFloat)
def le (a b : Single) : Bool := decide (a.toFloat ≤ b.toFloat)

/-- The larger of two numbers, or the other one if one of them is a NaN. -/
def max (a b : Single) : Single := if a.isNaN || a.lt b then b else a

/-- The smaller of two numbers, or the other one if one of them is a NaN. -/
def min (a b : Single) : Single := if a.isNaN || b.lt a then b else a

/-- One for true and zero for false. -/
def ofBool (b : Bool) : Single := if b then one else zero

/-! ### Conversion -/

/-- The single nearest to a word taken as a signed number. -/
def ofWord (w : Word) : Single := ofFloat (Int32.ofBitVec w).toFloat32

/-- The number cut toward zero and kept inside the signed words; a NaN gives zero. -/
def truncate (x : Single) : Word := x.toFloat.toInt32.toBitVec

/-- The number plus one half, in double precision, cut toward zero and kept inside the
signed words; a NaN gives zero. -/
def round (x : Single) : Word := (x.toFloat.toFloat + 0.5).toInt32.toBitVec

end Single

end SpinHub
