import Mathlib
import SpinHub.Container
import SpinHub.Proofs.ForwardLinks
import SpinHub.Proofs.ImageWords

/-!
# The bodies of containers

The container of an object and the block of the object in memory are written apart: one from the
numbers of slots, filled up to a long, and one from the slots themselves, filled up to the size that
was laid down before. There are as many slots as were counted, so the two differ in them only.
-/

namespace SpinHub

open Bytes

theorem Word.rotateLeft_xor (x y : Word) (r : Nat) :
  (x ^^^ y).rotateLeft r = x.rotateLeft r ^^^ y.rotateLeft r
  := by
  ext i hi
  simp only [BitVec.getElem_rotateLeft, BitVec.getElem_xor]
  split <;> simp

theorem Word.rotateLeft_rotateLeft (x : Word) (r s : Nat) :
  (x.rotateLeft r).rotateLeft s = x.rotateLeft (r + s)
  := by
  ext i hi
  simp only [BitVec.getElem_rotateLeft]
  split_ifs <;> (congr 1; omega)

/-- The exclusive or of all bytes, each of them turned to the left by one bit for every byte that
stands behind it. -/
def Bytes.turned : Bytes → Word
  | [] => 0
  | b :: rest => (BitVec.ofNat 32 b.toNat).rotateLeft rest.length ^^^ Bytes.turned rest

/-- A hash that was begun is turned by all bytes that follow. -/
theorem foldl_rotateLeft_xor (bytes : Bytes) (start : Word) :
  bytes.foldl (fun hash b => hash.rotateLeft 1 ^^^ BitVec.ofNat 32 b.toNat) start
    = start.rotateLeft bytes.length ^^^ Bytes.turned bytes
  := by
  induction bytes generalizing start with
  | nil =>
    have hzero : start.rotateLeft 0 = start := by
      ext i hi
      rw [BitVec.getElem_rotateLeft, dif_neg (by simp)]
      rfl
    rw [List.foldl_nil, List.length_nil, hzero]
    exact BitVec.xor_zero.symm
  | cons b rest ih =>
    rw [List.foldl_cons, ih, Word.rotateLeft_xor, Word.rotateLeft_rotateLeft, Nat.add_comm,
      BitVec.xor_assoc, Bytes.turned, List.length_cons]

theorem rollingHash_eq_turned (bytes : Bytes) :
  rollingHash bytes = Bytes.turned bytes
  := by
  have hzero : (0 : Word).rotateLeft bytes.length = 0 := by
    ext i hi
    rw [BitVec.getElem_rotateLeft]
    split <;> simp
  rw [rollingHash, foldl_rotateLeft_xor, hzero]
  exact BitVec.zero_xor

/-! ### Bodies -/

namespace Object

variable {object : Object} {slots : Bytes} (hslots : slots.length = 4 * object.subSlots)

include hslots

end Object

/-! ### Containers -/

/-- Where the hash, the sum and the body stand in a container. -/
theorem Container.bytes_fields (container : Container) :
  Holds container.bytes 8 (Bytes.turned container.body).littleEndian
    ∧ container.bytes[22]? = some (Bytes.sum container.body)
    ∧ container.bytes.drop (26 + (container.exports.flatMap Export.bytes).length
      + (container.imports.flatMap Import.bytes).length) = container.body
  := by
  have hall := holds_zero_append container.bytes []
  rw [List.append_nil] at hall
  nth_rewrite 2 [Container.bytes] at hall
  simp only [holds_append, and_assoc] at hall
  obtain ⟨_, _, hhash, _, _, _, _, _, hsum, _⟩ := hall
  rw [rollingHash_eq_turned] at hhash
  refine ⟨hhash, ?_, ?_⟩
  · apply hsum.getElem? Nat.two_pos
  · rw [Container.bytes]
    apply List.drop_left'
    simp only [List.length_append]
    rfl

end SpinHub
