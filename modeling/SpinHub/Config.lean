/-!
# Configuration

The limits and choices that shape an image.
-/

namespace SpinHub

/-- The hub memory of the chip. The stack budget is checked for this size only. -/
def hubSize : Nat := 32768

/-- What a compilation is told besides the program. -/
structure Config where
  /-- The bytes of the memory image. -/
  memorySize : Nat := hubSize
  /-- Whether identical objects share one block. -/
  shareDuplicates : Bool := true
  /-- Rounds of settling a method's code. -/
  roundLimit : Nat := 64
  /-- The cog address that FIT checks without an operand. -/
  fitLimit : Int := 496
  /-- The longs of stack without `_STACK`. -/
  stackLongs : Int := 16
deriving DecidableEq

end SpinHub
