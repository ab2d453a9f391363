import Mathlib
import SpinHub.Word

/-!
# Numbers in bytes, bytes in memory

What the bytes of words and integers are as numbers, and where the parts of a run of memory
stand.
-/

namespace SpinHub

theorem total_eq_sum (numbers : List Nat) :
  total numbers = numbers.sum
  := rfl

/-- A size below `2 ^ 31` is kept as it is. -/
theorem int32_natCast {n : Nat} (h : n < 2 ^ 31) :
  int32 n = n
  := by
  rw [int32]
  apply Int.bmod_eq_of_le <;> omega

/-- What is dropped is a multiple of the range. -/
theorem int32_emod (n : Int) :
  int32 n % 0x100000000 = n % 0x100000000
  := by
  rw [int32]
  exact Int.bmod_emod

theorem int32_bounds (n : Int) :
  -2 ^ 31 ≤ int32 n ∧ int32 n < 2 ^ 31
  := by
  rw [int32]
  exact ⟨Int.le_bmod (by decide), Int.bmod_lt (by decide)⟩

/-- The bytes of a word are its digits to the base 256, the lowest first. -/
theorem Word.toNat_byte (w : Word) (i : Nat) :
  (w.byte i).toNat = w.toNat / 256 ^ i % 256
  := by
  rw [Word.byte, UInt8.toNat_ofNat', Nat.shiftRight_eq_div_pow, Nat.pow_mul]

theorem toNat_lowByte (n : Int) :
  ((lowByte n).toNat : Int) = n % 256
  := by
  rw [lowByte, UInt8.ofInt, UInt8.toNat_ofNat']
  omega

theorem toNat_highByte (n : Int) :
  ((highByte n).toNat : Int) = n / 256 % 256
  := by
  rw [highByte, UInt8.ofInt, UInt8.toNat_ofNat']
  omega

/-- Setting the top bit of a byte. -/
theorem toNat_or_topBit (b : UInt8) :
  (b ||| 0x80).toNat = b.toNat % 128 + 128
  := by
  have table : ∀ n < 256, n ||| 128 = n % 128 + 128 := by decide +kernel
  rw [UInt8.toNat_or]
  apply table _ b.toNat_lt

/-- Clearing the top bit of a byte. -/
theorem toNat_and_lowBits (b : UInt8) :
  (b &&& 0x7f).toNat = b.toNat % 128
  := by
  have hmask : (0x7f : UInt8).toNat = 2 ^ 7 - 1 := rfl
  rw [UInt8.toNat_and, hmask, Nat.and_two_pow_sub_one_eq_mod]

@[simp]
theorem length_halfword (n : Int) :
  (halfword n).length = 2
  := rfl

/-! ### Bytes in memory -/

namespace Bytes

/-- Bytes that are written over as many others take their place. -/
theorem overwrite_append {middle bytes : Bytes} (hlength : bytes.length = middle.length)
    (front back : Bytes) :
  overwrite (front ++ middle ++ back) front.length bytes = front ++ bytes ++ back
  := by
  rw [overwrite, hlength, ← List.length_append, List.drop_left, List.append_assoc front,
    List.take_left]

theorem overwrite_nil (block : Bytes) (start : Nat) :
  overwrite block start [] = block
  := by
  rw [overwrite, List.append_nil]
  exact List.take_append_drop start block

theorem overwrite_cons_zero (b c : UInt8) (block bytes : Bytes) :
  overwrite (b :: block) 0 (c :: bytes) = c :: overwrite block 0 bytes
  := by
  simp [overwrite]

/-- Bytes in front of the start stay. -/
theorem overwrite_cons_succ (b : UInt8) (block bytes : Bytes) (start : Nat) :
  overwrite (b :: block) (start + 1) bytes = b :: overwrite block start bytes
  := by
  rw [overwrite, Nat.add_right_comm]
  rfl

/-- From an address on, `memory` starts with `bytes`. -/
def Holds (memory : Bytes) (address : Nat) (bytes : Bytes) : Prop :=
  bytes <+: memory.drop address

variable {memory bytes front back : Bytes} {address : Nat}

theorem holds_zero_append (bytes rest : Bytes) :
  Holds (bytes ++ rest) 0 bytes
  := List.prefix_append bytes rest

theorem holds_append_right (front back : Bytes) :
  Holds (front ++ back) front.length back
  := by
  rw [Holds, List.drop_left]

/-- Memory holds two runs of bytes in turn if it holds the second one behind the first. -/
theorem holds_append :
  Holds memory address (front ++ back)
    ↔ Holds memory address front ∧ Holds memory (address + front.length) back
  := by
  rw [Holds, Holds, Holds, ← List.drop_drop]
  constructor
  · rintro ⟨rest, hrest⟩
    rw [← hrest, List.append_assoc, List.drop_left]
    exact ⟨List.prefix_append .., List.prefix_append ..⟩
  · rintro ⟨⟨rest, hrest⟩, hback⟩
    rw [← hrest, List.drop_left] at hback
    rw [← hrest, List.prefix_append_right_inj]
    exact hback

/-- What stands inside of bytes stands inside of the memory that holds them. -/
theorem Holds.inside {inner : Bytes} {offset : Nat} (h : Holds memory address bytes)
    (hinner : Holds bytes offset inner) :
  Holds memory (address + offset) inner
  := by
  rw [Holds, ← List.drop_drop]
  apply hinner.trans
  apply List.IsPrefix.drop h

/-- A byte of what memory holds is found at its address. -/
theorem Holds.getElem? {offset : Nat} (h : Holds memory address bytes)
    (hoffset : offset < bytes.length) :
  memory[address + offset]? = bytes[offset]?
  := by
  obtain ⟨rest, hrest⟩ := h
  rw [← List.getElem?_drop, ← hrest, List.getElem?_append_left hoffset]

/-- In a concatenation each part stands behind the parts before it. -/
theorem holds_flatMap {α : Type} {items : List α} {i : Nat} {item : α}
    (h : items[i]? = some item) (f : α → Bytes) :
  Holds (items.flatMap f) ((items.take i).flatMap f).length (f item)
  := by
  obtain ⟨hi, rfl⟩ := List.getElem?_eq_some_iff.mp h
  have hsplit : items.flatMap f
      = (items.take i).flatMap f ++ (f items[i] ++ (items.drop (i + 1)).flatMap f) := by
    rw [← List.flatMap_cons, ← List.drop_eq_getElem_cons hi, ← List.flatMap_append,
      List.take_append_drop]
  rw [hsplit]
  apply (holds_append.mp (holds_append_right _ _)).1

theorem length_flatMap_of_length {α : Type} (items : List α) {f : α → Bytes} {length : Nat}
    (h : ∀ item, (f item).length = length) :
  (items.flatMap f).length = items.length * length
  := by
  rw [List.length_flatMap, List.map_congr_left fun item _ => h item, List.map_const',
    List.sum_replicate, smul_eq_mul]

/-- In a concatenation of parts of one length each part stands at a multiple of it. -/
theorem holds_flatMap_of_length {α : Type} {items : List α} {i length : Nat} {item : α}
    (hitem : items[i]? = some item) {f : α → Bytes} (h : ∀ item, (f item).length = length) :
  Holds (items.flatMap f) (i * length) (f item)
  := by
  obtain ⟨hi, _⟩ := List.getElem?_eq_some_iff.mp hitem
  have hbefore : ((items.take i).flatMap f).length = i * length := by
    rw [length_flatMap_of_length _ h, List.length_take, min_eq_left hi.le]
  rw [← hbefore]
  apply holds_flatMap hitem

end Bytes

end SpinHub
