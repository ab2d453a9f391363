import SpinHub.Word

/-!
# Push forms

The interpreter pushes a literal by one of several forms: single bytes for -1, 0 and 1, a
two-byte form for words near a power of two, and forms with one to four operand bytes, of
which the first two may be followed by a complement. `encode` picks the shortest form that
has at least a given length, and `decode?` reads one form back.
-/

namespace SpinHub.Push

/-! ### Opcodes -/

def minusOne : UInt8 := 0x34
def zero : UInt8 := 0x35
def one : UInt8 := 0x36
/-- Pushes a word near a power of two, given by one operand byte. -/
def power : UInt8 := 0x37
/-- Pushes one operand byte; the next three opcodes push two, three and four. -/
def byte1 : UInt8 := 0x38
def byte2 : UInt8 := 0x39
def byte3 : UInt8 := 0x3a
def byte4 : UInt8 := 0x3b
/-- Complements the word on top of the stack. -/
def complement : UInt8 := 0xe7

/-! ### Words near a power of two -/

/-- The operand for `v` if `v` is `m = 2 ^ (b + 1)`, `m - 1`, the complement of `m` or `-m`. -/
def powerOperandAt? (v : Word) (b : Nat) : Option UInt8 :=
  let m : Word := 2 <<< b
  if v = m then some (UInt8.ofNat b)
  else if v = m - 1 then some (UInt8.ofNat (b + 0x20))
  else if v = ~~~m then some (UInt8.ofNat (b + 0x40))
  else if v = -m then some (UInt8.ofNat (b + 0x60))
  else none

/-- The operand of the power form for `v`, if it has one; the lowest power wins. -/
def powerOperand? (v : Word) : Option UInt8 :=
  (List.range 31).findSome? (powerOperandAt? v)

/-- The word that the power form pushes for an operand byte. -/
def powerValue (b : UInt8) : Word :=
  let m : Word := 2 <<< (b &&& 0x1f).toNat
  match b >>> 5 with
  | 0 => m
  | 1 => m - 1
  | 2 => ~~~m
  | _ => -m

/-! ### Encoding -/

/-- The shortest push of `v` that is at least `minLength` bytes long, or the five-byte form. -/
def encode (v : Word) (minLength : Nat) : Bytes :=
  if v = -1 ∧ minLength ≤ 1 then [minusOne]
  else if v = 0 ∧ minLength ≤ 1 then [zero]
  else if v = 1 ∧ minLength ≤ 1 then [one]
  else match (if minLength ≤ 2 then powerOperand? v else none) with
    | some b => [power, b]
    | none =>
      if v &&& 0xffffff00 = 0 ∧ minLength ≤ 2 then [byte1, v.byte 0]
      else if v ||| 0xff = -1 ∧ minLength ≤ 3 then [byte1, (~~~v).byte 0, complement]
      else if v &&& 0xffff0000 = 0 ∧ minLength ≤ 3 then [byte2, v.byte 1, v.byte 0]
      else if v ||| 0xffff = -1 ∧ minLength ≤ 4 then
        [byte2, (~~~v).byte 1, (~~~v).byte 0, complement]
      else if v &&& 0xff000000 = 0 ∧ minLength ≤ 4 then [byte3, v.byte 2, v.byte 1, v.byte 0]
      else byte4 :: v.bigEndian

/-- The shortest push of `v`. -/
def shortest (v : Word) : Bytes := encode v 1

/-! ### Decoding -/

/-- The word whose bytes are `bytes`, high byte first. -/
def bigEndianValue (bytes : Bytes) : Word :=
  bytes.foldl (fun acc b => (acc <<< 8) ||| BitVec.ofNat 32 b.toNat) 0

/-- The number of operand bytes after an opcode of the plain forms. -/
def operandCount? (opcode : UInt8) : Option Nat :=
  if opcode = byte1 then some 1
  else if opcode = byte2 then some 2
  else if opcode = byte3 then some 3
  else if opcode = byte4 then some 4
  else none

/-- Reads one push form from the front of `bytes`: the word pushed and the bytes used. -/
def decode? : Bytes → Option (Word × Nat)
  | [] => none
  | opcode :: rest =>
    if opcode = minusOne then some (-1, 1)
    else if opcode = zero then some (0, 1)
    else if opcode = one then some (1, 1)
    else if opcode = power then rest.head?.map fun b => (powerValue b, 2)
    else do
      let n ← operandCount? opcode
      if rest.length < n then none
      else
        let v := bigEndianValue (rest.take n)
        if n ≤ 2 ∧ rest[n]? = some complement then some (~~~v, n + 2) else some (v, n + 1)

end SpinHub.Push
