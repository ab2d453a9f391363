import Mathlib
import SpinHub.Block
import SpinHub.Proofs.Bytes
import SpinHub.Proofs.ObjectLayout

/-!
# The layout of blocks

The block of a compiled object holds its table, slot by slot, then its DAT section and then the
code of its methods, each where the layout of the object says.
-/

namespace SpinHub

open Bytes

/-! ### Parts of a block -/

theorem Build.le_roundLong (n : Nat) :
  n ≤ roundLong n
  := by
  rw [roundLong]
  omega

theorem Consecutive.offset {start : Nat} {methods : List Method} (h : Consecutive start methods)
    {i : Nat} {method : Method} (hmethod : methods[i]? = some method) :
  method.offset = start + ((methods.take i).flatMap (·.code)).length
  := by
  induction methods generalizing start i with
  | nil => cases hmethod
  | cons first rest ih =>
    cases i with
    | zero =>
      cases hmethod
      exact h.1
    | succ i =>
      rw [ih h.2 hmethod, List.take_succ_cons, List.flatMap_cons, List.length_append,
        Nat.add_assoc]

namespace Object

theorem methodTable_perm (object : Object) :
  object.methodTable.Perm object.methods
  := List.filter_append_perm ..

/-- The slot of a method. -/
def methodSlot (method : Method) : Bytes := halfword method.offset ++ halfword method.localsSize

theorem length_methodSlot (method : Method) :
  (methodSlot method).length = 4
  := rfl

theorem methodSlots_eq (object : Object) :
  object.methodSlots = object.methodTable.flatMap methodSlot
  := rfl

theorem length_methodSlots (object : Object) :
  object.methodSlots.length = 4 * object.methods.length
  := by
  rw [methodSlots_eq, length_flatMap_of_length _ length_methodSlot,
    object.methodTable_perm.length_eq, Nat.mul_comm]

/-- A method has the slot that its place in the table gives it. -/
theorem Slotted.index {object : Object} (h : object.Slotted) {i : Nat} {method : Method}
    (hmethod : object.methodTable[i]? = some method) :
  method.index = i + 1
  := by
  obtain ⟨hi, _⟩ := List.getElem?_eq_some_iff.mp hmethod
  rw [object.methodTable_perm.length_eq] at hi
  have hindex : (object.methodTable.map (·.index))[i]? = some method.index := by
    rw [List.getElem?_map, hmethod, Option.map_some]
  rw [h.methods, List.getElem?_range' hi, Option.some_inj] at hindex
  omega

/-- The block of an object with the given bytes in the slots of the instances. -/
def blockWith (object : Object) (slots : Bytes) : Bytes :=
  (object.sizesLong ++ object.methodSlots ++ slots ++ object.contents).resize object.size

/-- The bytes of an object's block that are laid down. -/
def blockLength (object : Object) : Nat :=
  4 * (object.methods.length + 1) + 4 * object.subSlots + object.contents.length

theorem Compiled.size_eq {object : Object} (h : object.Compiled) :
  object.size = roundLong object.blockLength
  := by
  rw [h.size, blockLength, codeStart, contents, List.length_append]
  congr 1
  omega

section Slots

variable {object : Object} {slots : Bytes} (hslots : slots.length = 4 * object.subSlots)

include hslots

theorem length_parts :
  (object.sizesLong ++ object.methodSlots ++ slots ++ object.contents).length = object.blockLength
  := by
  have hsizes : object.sizesLong.length = 4 := rfl
  simp only [List.length_append, length_methodSlots, hslots, hsizes, blockLength]
  omega

/-- Behind the slots stand the contents and zeros. -/
theorem Compiled.blockWith_eq (h : object.Compiled) :
  object.blockWith slots = object.sizesLong ++ object.methodSlots ++ slots
    ++ (object.contents ++ List.replicate (object.size - object.blockLength) 0)
  := by
  have hroom : object.blockLength ≤ object.size := by
    rw [h.size_eq]
    apply Build.le_roundLong
  rw [← length_parts hslots] at hroom
  rw [blockWith, Bytes.resize, List.take_of_length_le hroom, length_parts hslots, List.append_assoc]

end Slots

end Object

namespace Build

/-- The slots of the instances as they stand in a block. -/
def slotBytes (build : Build) (id : ObjId) : Bytes :=
  (build.slots id).flatMap (build.entrySlot (build.object id).address)

/-- The bytes of an object's block. -/
def blockOf (build : Build) (id : ObjId) : Bytes :=
  let object := build.object id
  (object.sizesLong ++ object.methodSlots ++ build.slotBytes id ++ object.contents).resize
    object.size

/-- The block of an object at any address has one slot for each instance. -/
theorem block_computes_at {build : Build} {rank : ObjId → Nat}
    (hranked : Ranked build.objects [] rank) {id : ObjId} (hid : id < build.objects.length)
    (base : Int) :
  Computes build.Knows (block id base)
    ((build.object id).blockWith ((build.slots id).flatMap (build.entrySlot base)))
  := by
  apply Computes.get_bind
  rintro _ ⟨totals, rfl, _⟩
  apply Computes.bind (entries_computes hranked hid)
  apply Computes.pure

theorem block_computes {build : Build} {rank : ObjId → Nat}
    (hranked : Ranked build.objects [] rank) {id : ObjId} (hid : id < build.objects.length) :
  Computes build.Knows (block id (build.object id).address) (build.blockOf id)
  := block_computes_at hranked hid _

@[simp]
theorem length_blockOf (build : Build) (id : ObjId) :
  (build.blockOf id).length = (build.object id).size
  := length_resize ..

theorem blockOf_congr {b b' : Build} (h : b'.objects = b.objects) (id : ObjId) :
  b'.blockOf id = b.blockOf id
  := by
  have hentry : b'.entrySlot = b.entrySlot := by
    funext base entry
    rw [entrySlot, Build.object, h, entrySlot, Build.object]
  simp only [blockOf, slotBytes, slots, survivor, Build.object, h, hentry]

theorem length_slots (build : Build) (id : ObjId) :
  (build.slots id).length = total ((build.object id).subs.map (·.count))
  := by
  rw [slots, List.length_map, instances, length_instancesFrom]
  rfl

theorem length_entrySlot (build : Build) (base : Int) (entry : Entry) :
  (build.entrySlot base entry).length = 4
  := rfl

theorem length_entrySlots {build : Build} {id : ObjId} (h : (build.object id).Slotted)
    (base : Int) :
  ((build.slots id).flatMap (build.entrySlot base)).length = 4 * (build.object id).subSlots
  := by
  rw [length_flatMap_of_length _ (build.length_entrySlot _), length_slots, h.subSlots, Nat.mul_comm]

theorem length_slotBytes {build : Build} {id : ObjId} (h : (build.object id).Slotted) :
  (build.slotBytes id).length = 4 * (build.object id).subSlots
  := length_entrySlots h _

section Compiled

variable {build : Build} {id : ObjId} (h : (build.object id).Compiled)

include h

/-- A block is its parts and some zeros. -/
theorem blockOf_eq :
  ∃ padding, build.blockOf id
    = (build.object id).sizesLong ++ (build.object id).methodSlots ++ build.slotBytes id
      ++ (build.object id).datBytes ++ (build.object id).methodTable.flatMap (·.code)
      ++ List.replicate padding 0
  := by
  have hparts : build.blockOf id = _ := h.blockWith_eq (length_slotBytes h.toSlotted)
  use (build.object id).size - (build.object id).blockLength
  rw [hparts, Object.contents]
  simp only [List.append_assoc]

/-- Where the parts of a block stand. -/
theorem blockOf_holds :
  Holds (build.blockOf id) 0 (build.object id).sizesLong
    ∧ Holds (build.blockOf id) 4 (build.object id).methodSlots
    ∧ Holds (build.blockOf id) (4 * ((build.object id).methods.length + 1)) (build.slotBytes id)
    ∧ Holds (build.blockOf id) (build.object id).headerSize (build.object id).datBytes
    ∧ Holds (build.blockOf id) (build.object id).codeStart
      ((build.object id).methodTable.flatMap (·.code))
  := by
  obtain ⟨padding, hparts⟩ := blockOf_eq h
  have hall := holds_zero_append ((build.object id).sizesLong ++ (build.object id).methodSlots
    ++ build.slotBytes id ++ (build.object id).datBytes
    ++ (build.object id).methodTable.flatMap (·.code)) (List.replicate padding 0)
  rw [← hparts] at hall
  obtain ⟨hall, hcode⟩ := holds_append.mp hall
  obtain ⟨hall, hdat⟩ := holds_append.mp hall
  obtain ⟨hall, hslots⟩ := holds_append.mp hall
  obtain ⟨hsizes, hmethods⟩ := holds_append.mp hall
  have hfour : (build.object id).sizesLong.length = 4 := rfl
  simp only [List.length_append, hfour, Object.length_methodSlots,
    length_slotBytes h.toSlotted, Nat.zero_add] at hmethods hslots hdat hcode
  have hslots' : 4 * ((build.object id).methods.length + 1)
      = 4 + 4 * (build.object id).methods.length := by
    omega
  have hheader : (build.object id).headerSize
      = 4 + 4 * (build.object id).methods.length + 4 * (build.object id).subSlots := by
    rw [h.headerSize]
    omega
  have hstart : (build.object id).codeStart
      = 4 + 4 * (build.object id).methods.length + 4 * (build.object id).subSlots
        + (build.object id).datBytes.length := by
    rw [Object.codeStart]
    omega
  rw [hslots', hheader, hstart]
  exact ⟨hsizes, hmethods, hslots, hdat, hcode⟩

/-- The slot of a method holds its offset and the bytes of its locals, and its code stands at the
offset. -/
theorem blockOf_method {method : Method} (hmethod : method ∈ (build.object id).methods) :
  Holds (build.blockOf id) (4 * method.index) (Object.methodSlot method)
    ∧ Holds (build.blockOf id) method.offset method.code
  := by
  obtain ⟨_, hslots, _, _, hcode⟩ := blockOf_holds h
  rw [← (build.object id).methodTable_perm.mem_iff] at hmethod
  obtain ⟨i, hi⟩ := List.mem_iff_getElem?.mp hmethod
  constructor
  · rw [Object.methodSlots_eq] at hslots
    have hslot := hslots.inside (holds_flatMap_of_length hi Object.length_methodSlot)
    rw [h.toSlotted.index hi]
    rwa [Nat.add_comm, ← Nat.succ_mul, Nat.mul_comm] at hslot
  · rw [h.code.offset hi]
    apply hcode.inside (holds_flatMap hi _)

/-- The slot of an instance of a sub-object holds the address of the object it calls into, relative
to the block, and the offset of its variables. -/
theorem blockOf_instance {i k : Nat} {sub : SubObject}
    (hsub : (build.object id).subs[i]? = some sub) (hk : k < sub.count) :
  ∃ offset, (build.slots id)[sub.index + k - ((build.object id).methods.length + 1)]?
      = some (build.survivor sub.target, offset)
    ∧ Holds (build.blockOf id) (4 * (sub.index + k))
      (build.entrySlot (build.object id).address (build.survivor sub.target, offset))
  := by
  obtain ⟨_, _, hslots, _, _⟩ := blockOf_holds h
  obtain ⟨offset, hinstance⟩ := @instancesFrom_getElem? build.objects _ _ _ _ hsub hk
    (build.object id).varSize
  have hplace : sub.index + k - ((build.object id).methods.length + 1)
      = total (((build.object id).subs.take i).map (·.count)) + k := by
    rw [h.subs i sub hsub]
    omega
  have hentry : (build.slots id)[sub.index + k - ((build.object id).methods.length + 1)]?
      = some (build.survivor sub.target, offset) := by
    rw [slots, List.getElem?_map, hplace, instances]
    change Option.map _ (instancesFrom build.objects (build.object id).varSize
      (build.object id).subs)[_]? = _
    rw [hinstance, Option.map_some]
  refine ⟨offset, hentry, ?_⟩
  have hslot := hslots.inside (holds_flatMap_of_length hentry (build.length_entrySlot _))
  have haddress : 4 * (sub.index + k) = 4 * ((build.object id).methods.length + 1)
      + (sub.index + k - ((build.object id).methods.length + 1)) * 4 := by
    rw [h.subs i sub hsub]
    omega
  rw [haddress]
  exact hslot

end Compiled

end Build

end SpinHub
