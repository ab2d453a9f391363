/-!
# Words and bytes

The machine word of the interpreter is 32 bits wide and its arithmetic wraps. Memory is
a list of bytes, and every multi-byte field in it is stored with the lowest byte first.
-/

namespace SpinHub

/-- A 32-bit word. -/
abbrev Word := BitVec 32

/-- A run of memory. -/
abbrev Bytes := List UInt8

/-- The sum of numbers. -/
def total (numbers : List Nat) : Nat := numbers.foldr (· + ·) 0

/-- An integer as 32 bits with a sign keep it: what goes beyond their range is dropped. -/
@[irreducible]
def int32 (n : Int) : Int := Int.bmod n 0x100000000

/-- The low byte of an integer in two's complement. -/
def lowByte (n : Int) : UInt8 := UInt8.ofInt n

/-- The byte above the low byte of an integer in two's complement. -/
def highByte (n : Int) : UInt8 := UInt8.ofInt (n / 256)

/-- The low sixteen bits of an integer, low byte first. -/
def halfword (n : Int) : Bytes := [lowByte n, highByte n]

/-- Byte number `i` of a word, counted from the low end. -/
def Word.byte (w : Word) (i : Nat) : UInt8 := UInt8.ofNat (w.toNat >>> (8 * i))

/-- The four bytes of a word, low byte first. -/
def Word.littleEndian (w : Word) : Bytes := [w.byte 0, w.byte 1, w.byte 2, w.byte 3]

/-- The four bytes of a word, high byte first. -/
def Word.bigEndian (w : Word) : Bytes := [w.byte 3, w.byte 2, w.byte 1, w.byte 0]

/-- The word that stands for a truth value: all ones for true, zero for false. -/
def Word.ofBool (b : Bool) : Word := if b then -1 else 0

namespace Bytes

/-- The sum of all bytes, modulo 256. -/
def sum (bytes : Bytes) : UInt8 := bytes.foldl (· + ·) 0

/-- `bytes` cut or filled up with zeros to `size` bytes. -/
def resize (bytes : Bytes) (size : Nat) : Bytes :=
  bytes.take size ++ List.replicate (size - bytes.length) 0

/-- `block` with `bytes` written over it from offset `start` on. -/
def overwrite (block : Bytes) (start : Nat) (bytes : Bytes) : Bytes :=
  block.take start ++ bytes ++ block.drop (start + bytes.length)

/-- A block cut or filled up to `size` bytes has `size` bytes. -/
@[simp] theorem length_resize (bytes : Bytes) (size : Nat) :
  (resize bytes size).length = size
  := by
  simp only [resize, List.length_append, List.length_take, List.length_replicate]
  omega

/-- Writing inside a block keeps its length. -/
theorem length_overwrite (block bytes : Bytes) (start : Nat)
    (h : start + bytes.length ≤ block.length) :
  (overwrite block start bytes).length = block.length
  := by
  simp only [overwrite, List.length_append, List.length_take, List.length_drop]
  omega

end Bytes

/-- The least number from `n` on whose bits below `a` are clear, for `a` a power of two; in
general, `n + a - 1` with the bits of `a - 1` cleared. Alignment 0 counts as 1. -/
def alignUp (n a : Nat) : Nat := (n + (a - 1)) - ((n + (a - 1)) &&& (a - 1))

/-- `n` rounded up to a multiple of four. -/
def roundLong (n : Nat) : Nat := (n + 3) / 4 * 4

end SpinHub
