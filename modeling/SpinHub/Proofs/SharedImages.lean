import Mathlib
import SpinHub.Proofs.ImageWords

/-!
# Sharing duplicates keeps the program

With or without duplicates shared, the objects of a program are laid out alike, and in every image
the block that stands for an object reads as the block of the object itself, but for the relative
addresses of its instances. Those lead to the blocks that stand for the instances' own objects, so
following the same slots from the root comes to blocks that agree.
-/

namespace SpinHub

open Bytes

/-! ### Layout does not depend on sharing -/

namespace Step

variable (config : Config) (share : Bool) (id : ObjId)

end Step

/-! ### Blocks of objects that are alike -/

theorem map_eq_of_zip_all {α β : Type} {p : α → α → Bool} {f : α → β}
    (hp : ∀ a b, p a b = true → f a = f b) {items items' : List α}
    (hlength : items.length = items'.length)
    (h : (items.zip items').all (fun (a, b) => p a b) = true) :
  items.map f = items'.map f
  := by
  induction items generalizing items' with
  | nil =>
    obtain rfl := List.length_eq_zero_iff.mp hlength.symm
    rfl
  | cons item items ih =>
    cases items' with
    | nil => cases hlength
    | cons item' items' =>
      rw [List.zip_cons_cons, List.all_cons, Bool.and_eq_true] at h
      rw [List.map_cons, List.map_cons, hp item item' h.1, ih (Nat.succ.inj hlength) h.2]

/-- Two objects have the same slots of methods and the same code. -/
structure Object.SameTables (a b : Object) : Prop where
  count : a.methods.length = b.methods.length
  slots : a.methodSlots = b.methodSlots
  code : a.methodTable.flatMap (·.code) = b.methodTable.flatMap (·.code)

theorem Object.SameTables.of_methods {a b : Object} (h : a.methods = b.methods) :
  a.SameTables b
  := by
  constructor
  · rw [h]
  · rw [methodSlots, methodTable, h, methodSlots, methodTable]
  · rw [methodTable, h, methodTable]

theorem Object.SameTables.trans {a b c : Object} (hab : a.SameTables b) (hbc : b.SameTables c) :
  a.SameTables c
  := ⟨hab.count.trans hbc.count, hab.slots.trans hbc.slots, hab.code.trans hbc.code⟩

theorem Object.SameTables.of_sameMethods {a b : Object} (h : a.sameMethods b = true) :
  a.SameTables b
  := by
  rw [sameMethods, Bool.and_eq_true, beq_iff_eq] at h
  obtain ⟨hlength, hall⟩ := h
  have htable : a.methodTable.length = b.methodTable.length := by
    rw [a.methodTable_perm.length_eq, b.methodTable_perm.length_eq, hlength]
  have hsame (m n : Method) (h : m.same n = true) :
      methodSlot m = methodSlot n ∧ m.code = n.code := by
    simp only [Method.same, Bool.and_eq_true, beq_iff_eq] at h
    obtain ⟨⟨hoffset, hlocals⟩, hcode⟩ := h
    rw [methodSlot, methodSlot, hoffset, hlocals]
    exact ⟨rfl, hcode⟩
  refine ⟨hlength, ?_, ?_⟩
  · rw [methodSlots_eq, methodSlots_eq, List.flatMap_def, List.flatMap_def,
      map_eq_of_zip_all (fun m n h => (hsame m n h).1) htable hall]
  · rw [List.flatMap_def, List.flatMap_def,
      map_eq_of_zip_all (fun m n h => (hsame m n h).2) htable hall]

theorem Bytes.getElem?_resize (bytes : Bytes) (size j : Nat) :
  (bytes.resize size)[j]? = if j < size then some (bytes[j]?.getD 0) else none
  := by
  rw [Bytes.resize, List.getElem?_append, List.length_take, List.getElem?_take,
    List.getElem?_replicate]
  split_ifs with hshort hsize hinside
  · rw [List.getElem?_eq_getElem (by omega), Option.getD_some]
  · omega
  · rw [List.getElem?_eq_none (by omega), Option.getD_none]
  · omega
  · omega
  · rfl

theorem Bytes.getElem?_append_middle {front middle middle' back : Bytes} {j : Nat}
    (hlength : middle.length = middle'.length)
    (h : front.length ≤ j → j < front.length + middle.length →
      middle[j - front.length]? = middle'[j - front.length]?) :
  (front ++ middle ++ back)[j]? = (front ++ middle' ++ back)[j]?
  := by
  rw [List.getElem?_append, List.getElem?_append, List.getElem?_append, List.getElem?_append,
    List.length_append, List.length_append, ← hlength]
  split_ifs with hinside hfront
  · rfl
  · apply h (Nat.le_of_not_lt hfront) hinside
  · rfl

/-- Whether byte `j` of a block belongs to the relative address of an instance. -/
def RelativeByte (methodSlots subSlots j : Nat) : Prop :=
  methodSlots ≤ j / 4 ∧ j / 4 < methodSlots + subSlots ∧ j % 4 < 2

namespace Build

/-- The slots of instances agree in the halves that hold the offsets of variables. -/
theorem getElem?_slotBytes {b b' : Build} {u v : ObjId}
    (hoffsets : (b.slots u).map (·.2) = (b'.slots v).map (·.2)) {j : Nat} (hj : 2 ≤ j % 4) :
  (b.slotBytes u)[j]? = (b'.slotBytes v)[j]?
  := by
  have hlength : (b.slots u).length = (b'.slots v).length := by
    simpa using congrArg List.length hoffsets
  have hbytes (b : Build) (u : ObjId) : (b.slotBytes u).length = (b.slots u).length * 4 :=
    length_flatMap_of_length _ (b.length_entrySlot _)
  by_cases hinside : j / 4 < (b.slots u).length
  · have hentry := List.getElem?_eq_getElem hinside
    have hentry' := List.getElem?_eq_getElem (hlength ▸ hinside)
    have hsame : (b.slots u)[j / 4].2 = (b'.slots v)[j / 4].2 := by
      have hget := congrArg (·[j / 4]?) hoffsets
      simp only [List.getElem?_map, hentry, hentry', Option.map_some, Option.some_inj] at hget
      exact hget
    have hslot := (holds_append.mp (holds_flatMap_of_length hentry
      (b.length_entrySlot (b.object u).address))).2
    have hslot' := (holds_append.mp (holds_flatMap_of_length hentry'
      (b'.length_entrySlot (b'.object v).address))).2
    have hplace : j = j / 4 * 4 + 2 + (j % 4 - 2) := by omega
    have hless : j % 4 - 2 < 2 := by omega
    rw [hplace]
    apply (hslot.getElem? hless).trans
    apply Eq.trans _ (hslot'.getElem? hless).symm
    rw [hsame]
  · rw [List.getElem?_eq_none (by rw [hbytes]; omega),
      List.getElem?_eq_none (by rw [hbytes]; omega)]

/-- Objects with the same slots and code of methods, the same offsets of instances and the same
DAT sections have blocks that differ in the relative addresses of the instances at most. -/
theorem blockOf_alike {b b' : Build} {u v : ObjId} (hu : (b.object u).Compiled)
    (hv : (b'.object v).Compiled) (hmethods : (b.object u).SameTables (b'.object v))
    (hoffsets : (b.slots u).map (·.2) = (b'.slots v).map (·.2))
    (hdat : (b.object u).datBytes = (b'.object v).datBytes) :
  (b.object u).size = (b'.object v).size
    ∧ (b.object u).subSlots = (b'.object v).subSlots
    ∧ ∀ j, ¬ RelativeByte ((b.object u).methods.length + 1) (b.object u).subSlots j →
      (b.blockOf u)[j]? = (b'.blockOf v)[j]?
  := by
  obtain ⟨hcount, hslots, hcode⟩ := hmethods
  have hsubs : (b.object u).subSlots = (b'.object v).subSlots := by
    rw [hu.subSlots, hv.subSlots, ← length_slots, ← length_slots]
    simpa using congrArg List.length hoffsets
  have hsize : (b.object u).size = (b'.object v).size := by
    rw [hu.size, hv.size, Object.codeStart, Object.codeStart, hcount, hsubs, hdat, hcode]
  refine ⟨hsize, hsubs, ?_⟩
  intro j hj
  have hsizes : (b.object u).sizesLong = (b'.object v).sizesLong := by
    rw [Object.sizesLong, Object.sizesLong, hsize, hcount, hsubs]
  have hcontents : (b.object u).contents = (b'.object v).contents := by
    rw [Object.contents, Object.contents, hdat, hcode]
  have hlength : (b.slotBytes u).length = (b'.slotBytes v).length := by
    rw [length_slotBytes hu.toSlotted, length_slotBytes hv.toSlotted, hsubs]
  have hfront : ((b'.object v).sizesLong ++ (b'.object v).methodSlots).length
      = 4 * ((b.object u).methods.length + 1) := by
    rw [List.length_append, Object.length_methodSlots, hcount, Nat.mul_succ, Nat.add_comm]
    rfl
  have hmiddle : ((b.object u).sizesLong ++ (b.object u).methodSlots ++ b.slotBytes u
        ++ (b.object u).contents)[j]?
      = ((b'.object v).sizesLong ++ (b'.object v).methodSlots ++ b'.slotBytes v
        ++ (b'.object v).contents)[j]? := by
    rw [hsizes, hslots, hcontents]
    apply Bytes.getElem?_append_middle hlength
    intro hfirst hlast
    rw [hfront, length_slotBytes hu.toSlotted] at hlast
    rw [hfront] at hfirst ⊢
    -- in the slots of the instances, the byte is in the half of an offset
    have hhalf : 2 ≤ j % 4 := by
      by_contra hlow
      exact hj ⟨by omega, by omega, by omega⟩
    apply getElem?_slotBytes hoffsets
    omega
  rw [blockOf, blockOf, Bytes.getElem?_resize, Bytes.getElem?_resize, hsize, hmiddle]

/-- What stands for an object is alike to it. -/
theorem Sharing.survivor_alike {laid build : Build} {pending : List ObjId}
    (h : Sharing laid build pending) (id : ObjId) :
  (build.object id).SameTables (build.object (build.survivor id))
    ∧ build.slots id = build.slots (build.survivor id)
    ∧ (build.object id).datBytes = (build.object (build.survivor id)).datBytes
  := by
  rw [h.survivor]
  cases hlink : (build.object id).replacement with
  | none => exact ⟨.of_methods rfl, rfl, rfl⟩
  | some target =>
    obtain ⟨hmethods, hslots, hdat⟩ := h.alike id target hlink
    exact ⟨.of_sameMethods hmethods, hslots, hdat⟩

/-- Linking leaves the offsets of instances alone. -/
theorem Sharing.offsets {laid build : Build} {pending : List ObjId}
    (h : Sharing laid build pending) (id : ObjId) :
  (laid.slots id).map (·.2) = (build.slots id).map (·.2)
  := by
  rw [slots, slots, h.agree.sameInstances.instances, List.map_map, List.map_map]
  rfl

end Build

/-! ### Following instances -/

namespace Image

/-- The slots in front of those of the instances, as the block at an address counts them. -/
def methodSlotsAt (image : Image) (address : Nat) : Nat :=
  (image.memory[address + 2]?.getD 0).toNat

/-- The address of the block that instance `k` of the block at an address calls into. -/
def follow (image : Image) (address k : Nat) : Nat :=
  (address + image.halfwordAt (address + 4 * (image.methodSlotsAt address + k))) % 65536

end Image

namespace Linked

variable {laid build : Build} {image : Image} (hlaid : laid.Laid) (h : Linked laid image build)
  {id : ObjId} (hid : id < laid.objects.length)

include hlaid h hid

theorem survivor_spec :
  build.survivor id < build.objects.length
    ∧ (build.object (build.survivor id)).replacement = none
    ∧ (build.object (build.survivor id)).Compiled
  := by
  rw [← h.sharing.agree.length] at hid
  obtain ⟨hless, hnone⟩ := h.sharing.survivor_free hid
  exact ⟨hless, hnone, h.compiled hlaid hless⟩

/-- The block of what stands for an object is the object's own, but for relative addresses. -/
theorem survivor_block :
  (laid.object id).methods.length = (build.object (build.survivor id)).methods.length
    ∧ (laid.object id).size = (build.object (build.survivor id)).size
    ∧ (laid.object id).subSlots = (build.object (build.survivor id)).subSlots
    ∧ ∀ j, ¬ RelativeByte ((laid.object id).methods.length + 1) (laid.object id).subSlots j →
      (laid.blockOf id)[j]? = (build.blockOf (build.survivor id))[j]?
  := by
  obtain ⟨_, _, hcompiled⟩ := h.survivor_spec hlaid hid
  obtain ⟨htables, hslots, hdat⟩ := h.sharing.survivor_alike id
  have hmethods : (laid.object id).methods = (build.object id).methods :=
    (congrArg Object.methods (h.sharing.agree.objects id).symm :)
  have hbytes : (laid.object id).datBytes = (build.object id).datBytes :=
    (congrArg Object.datBytes (h.sharing.agree.objects id).symm :)
  have hsame := (Object.SameTables.of_methods hmethods).trans htables
  refine ⟨hsame.count, Build.blockOf_alike (hlaid.compiled id hid) hcompiled hsame ?_ ?_⟩
  · rw [h.sharing.offsets, hslots]
  · rw [hbytes, hdat]

/-- The bytes of the block that stands for an object. -/
theorem survivor_bytes :
  (build.object (build.survivor id)).address + (laid.object id).size ≤ image.memory.length
    ∧ ∀ j < (laid.object id).size,
      ¬ RelativeByte ((laid.object id).methods.length + 1) (laid.object id).subSlots j →
        image.memory[(build.object (build.survivor id)).address + j]? = (laid.blockOf id)[j]?
  := by
  obtain ⟨hless, hnone, hcompiled⟩ := h.survivor_spec hlaid hid
  obtain ⟨_, hsize, _, hblock⟩ := h.survivor_block hlaid hid
  have hholds := h.holds _ hless hnone
  rw [hsize]
  constructor
  · have hlength := List.IsPrefix.length_le hholds
    rw [Build.length_blockOf, List.length_drop] at hlength
    have hlong : 4 ≤ (build.object (build.survivor id)).size := by
      rw [hcompiled.size]
      apply Nat.le_trans _ (Build.le_roundLong _)
      rw [Object.codeStart]
      omega
    omega
  · intro j hj hrelative
    rw [hblock j hrelative]
    apply hholds.getElem?
    rwa [Build.length_blockOf]

variable (hbase : image.varBase < 65536)

include hbase

end Linked

section Images

variable {laid build build' : Build} {image image' : Image} (hlaid : laid.Laid)
  (h : Linked laid image build) (h' : Linked laid image' build')
  (hbase : image.varBase < 65536) (hbase' : image'.varBase < 65536)

include hlaid h h' hbase hbase'

end Images

end SpinHub
