import Mathlib
import SpinHub.Proofs.ImageWords

/-!
# The memory map of an image

The memory of an image is the header, the reserved space, the blocks of the survivors, the variables
of the root, the guard and the rest, in this order and with nothing in between. What is neither
header nor reserved space nor block nor guard is zero, and so is the sum of all bytes.
-/

namespace SpinHub

open Bytes

/-! ### Sums of bytes -/

theorem Bytes.sum_eq (bytes : Bytes) :
  Bytes.sum bytes = List.sum bytes
  := by
  rw [Bytes.sum, List.sum_eq_foldl]

theorem Bytes.sum_append (front back : Bytes) :
  Bytes.sum (front ++ back) = Bytes.sum front + Bytes.sum back
  := by
  rw [sum_eq, sum_eq, sum_eq, List.sum_append]

/-- Where the numbers of a header stand in it. -/
theorem Header.bytes_fields (header : Header) (checksum : UInt8) :
  Holds (header.bytes checksum) 0 header.clock.frequency.littleEndian
    ∧ Holds (header.bytes checksum) 4 [header.clock.mode]
    ∧ Holds (header.bytes checksum) 6 (halfword headerSize)
    ∧ Holds (header.bytes checksum) 8 (halfword header.varBase)
    ∧ Holds (header.bytes checksum) 10 (halfword header.stackBase)
  := by
  have hall := holds_zero_append (header.bytes checksum) []
  rw [List.append_nil, Header.bytes] at hall
  obtain ⟨hall, _⟩ := holds_append.mp hall
  obtain ⟨hall, _⟩ := holds_append.mp hall
  obtain ⟨hall, hstack⟩ := holds_append.mp hall
  obtain ⟨hall, hvars⟩ := holds_append.mp hall
  obtain ⟨hall, hsize⟩ := holds_append.mp hall
  obtain ⟨hfrequency, hrest⟩ := holds_append.mp hall
  obtain ⟨hmode, _⟩ := (@holds_append _ [_] _ _).mp hrest
  exact ⟨hfrequency, hmode, hsize, hvars, hstack⟩

/-- Zeros that stand in memory. -/
theorem Bytes.Holds.zero {memory : Bytes} {start count address : Nat}
    (h : Holds memory start (List.replicate count 0)) (hstart : start ≤ address)
    (hend : address < start + count) :
  memory[address]? = some 0
  := by
  obtain ⟨offset, rfl⟩ := Nat.exists_eq_add_of_le hstart
  have hoffset : offset < count := by omega
  rw [h.getElem? (by rwa [List.length_replicate]), List.getElem?_replicate, if_pos hoffset]

/-- Only where execution starts depends on the reserved space. -/
theorem Header.booting_eq (header : Header) (reserved : Nat) :
  header.booting reserved = { header with pc := (header.booting reserved).pc }
  := by
  rw [Header.booting]
  split_ifs <;> rfl

/-- In a memory of words the guard ends where the stack starts. -/
theorem Image.Headed.stackBase_eq {image : Image} {config : Config} {header : Header}
    {varBytes : Nat} (h : image.Headed config header varBytes) (hsize : config.memorySize < 65536) :
  header.stackBase = image.stackBase
    ∧ image.stackBase = image.varBase + varBytes + stackGuard.length
  := by
  have hroom := h.room
  have hstack := h.stackBase
  rw [int32_natCast (by omega)] at hstack
  have hend := h.ends
  omega

/-- A header that stands in front of an image tells its numbers, where they have sixteen bits. -/
theorem Image.Headed.words {image : Image} {config : Config} {header : Header} {varBytes : Nat}
    (h : image.Headed config header varBytes) (hsize : config.memorySize < 65536) {reserved : Nat}
    {checksum : UInt8} (hholds : image.memory.Holds 0 ((header.booting reserved).bytes checksum)) :
  image.memory.Holds 0 image.clock.frequency.littleEndian
    ∧ image.memory.Holds 4 [image.clock.mode] ∧ image.halfwordAt 6 = headerSize
    ∧ image.halfwordAt 8 = image.varBase ∧ image.halfwordAt 10 = image.stackBase
  := by
  obtain ⟨hfrequency, hmode, hstart, hvars, hguard⟩ :=
    (header.booting reserved).bytes_fields checksum
  obtain ⟨hstack, hguardEnd⟩ := h.stackBase_eq hsize
  have hclock : (header.booting reserved).clock = image.clock := by
    rw [header.booting_eq, h.clock]
  have hvarBase : (header.booting reserved).varBase = image.varBase := by
    rw [header.booting_eq, h.varBase]
  have hstackBase : (header.booting reserved).stackBase = image.stackBase := by
    rw [header.booting_eq, hstack]
  rw [hclock] at hfrequency hmode
  rw [hvarBase] at hvars
  rw [hstackBase] at hguard
  have hstartWord := halfwordAt_of_holds (hholds.inside hstart)
  have hvarsWord := halfwordAt_of_holds (hholds.inside hvars)
  have hguardWord := halfwordAt_of_holds (hholds.inside hguard)
  have hroom := h.room
  rw [Nat.zero_add] at hstartWord hvarsWord hguardWord
  have hfrequencyHolds := hholds.inside hfrequency
  have hmodeHolds := hholds.inside hmode
  rw [Nat.zero_add] at hfrequencyHolds hmodeHolds
  refine ⟨hfrequencyHolds, hmodeHolds, ?_, ?_, ?_⟩
  · rw [headerSize] at hstartWord ⊢
    omega
  · omega
  · omega

end SpinHub
