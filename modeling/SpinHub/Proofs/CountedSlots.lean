import Mathlib
import SpinHub.Proofs.BlockLayout
import SpinHub.Proofs.Phases

/-!
# Counted slots

Every declared sub-object has at least one instance once slots are given out, and no later phase
changes what an object declares. So the slots of the sub-objects fill the table from the last
method on without a gap, and the last of them has the number of all methods and instances.
-/

namespace SpinHub

/-- The sub-objects and methods of an object without what compiling fills in. -/
def Object.members (object : Object) : List SubObject × List Method :=
  (object.subs, object.methods.map Method.outline)

/-- Every sub-object of the object has an instance. -/
def Object.Counted (object : Object) : Prop := ∀ sub ∈ object.subs, 0 < sub.count

/-! ### Counts -/

/-- A number of instances that is accepted is positive. -/
theorem SubObject.instances_pos {sub : SubObject} {site : Site} {count : Nat} {s s' : Memo}
    (h : Yields (sub.instances site) s count s') :
  0 < count
  := by
  rw [SubObject.instances] at h
  cases hexp : sub.countExp with
  | none =>
    rw [hexp] at h
    obtain ⟨rfl, _⟩ := yields_pure.mp h
    apply Nat.one_pos
  | some e =>
    rw [hexp] at h
    obtain ⟨value, m, _, hrest⟩ := yields_bind.mp h
    split_ifs at hrest with hsmall
    · cases yields_failAt hrest
    · obtain ⟨rfl, _⟩ := yields_pure.mp hrest
      omega

theorem Object.withSubSlots_counted (object : Object) {counts : List Nat}
    (hlength : counts.length = object.subs.length) (hcounts : ∀ count ∈ counts, 0 < count) :
  (object.withSubSlots counts).Counted
  := by
  intro sub hsub
  apply hcounts
  rw [← (placeSubs_spec hlength (object.methods.length + 1)).1]
  apply List.mem_map_of_mem hsub

namespace Build

theorem Agree.tolerant {γ : Type} {p : Object → γ} :
  Tolerant (Agree p)
  where
  refl := Agree.refl
  trans := Agree.trans
  memo b memo := .of_unchanged (Unchanged.tolerant.memo b memo)
  warn b id pos text := .of_unchanged (Unchanged.tolerant.warn b id pos text)

theorem Agree.admits {γ : Type} {p : Object → γ} (id : ObjId) :
  Admits (Agree p) id p
  := fun _ _ h => (KeepsAll.of_keeps (Keeps.modifyObject h)).toAgree

/-- Compiling objects leaves alone what they declare. -/
theorem Compiling.of_members {R : Build → Build → Prop} (hR : Tolerant R)
    (hid : ∀ id, Admits R id Object.members) :
  Compiling R
  where
  toTolerant := hR
  hubAddress b id _ := hid id b _ rfl
  declared b id _ _ _ := Admits.declared (.of_comp Object.members (hid id)) b
  vars b id _ _ := hid id b _ rfl
  written id := .of_comp Object.members (hid id)
  compiled id := .of_comp (fun outline => (outline.subs, outline.methods)) (hid id)

end Build

namespace Step

/-- Sub-objects that get slots have instances. -/
theorem placeSubs_counted {id : ObjId} {s s' : Build} {u : Unit} (h : Yields (placeSubs id) s u s')
    (hid : id < s.objects.length) :
  (s'.object id).Counted
  := by
  obtain ⟨counts, memo, hmapM, _, _, rfl⟩ := yields_placeSubs h
  rw [Build.object_modifyObject_self _ (by simpa using hid),
    Build.object_modifyObject_self _ (by simpa using hid)]
  apply (s.object id).withSubSlots_counted (length_of_mapM hmapM)
  exact forall_of_mapM SubObject.instances_pos hmapM

theorem slots_counted {id : ObjId} {s s' : Build} {u : Unit}
    (h : Yields (do inObject id (placeSubs id); placeMethods id) s u s')
    (hid : id < s.objects.length) :
  (s'.object id).Counted
  := by
  obtain ⟨_, m, hsubs, hmethods⟩ := yields_bind.mp h
  obtain rfl := yields_modifyObject.mp hmethods
  have hplaced := placeSubs_counted (yields_inObject.mp hsubs) hid
  have hlength : m.objects.length = s.objects.length := by
    obtain ⟨counts, memo, _, _, _, rfl⟩ := yields_placeSubs (yields_inObject.mp hsubs)
    simp
  rw [Build.object_modifyObject_self _ (by rwa [hlength])]
  exact hplaced

/-- In a build all sub-objects have instances. -/
theorem build_counted {config : Config} {s s' : Build} {u : Unit} (hs : s.Registered)
    (h : Yields (build config) s u s') :
  ∀ id < s'.objects.length, (s'.object id).Counted
  := by
  obtain ⟨_, m, hslots, hcompile⟩ := yields_bind.mp (yields_get_bind.mp h)
  obtain ⟨hkeeps, hcounted⟩ := placeSlots_spec slots_counted hslots
  have hagree : m.Agree Object.subs s' :=
    (compileObjects_steady (.of_members Build.Agree.tolerant
      fun id => .of_comp Prod.fst (Build.Agree.admits id)) _ _ _).yields hcompile
  intro id hid
  rw [hagree.length, hkeeps.length] at hid
  rw [Object.Counted, hagree.objects id]
  apply hcounted id hid
  right
  rwa [hs.mem_order]

end Step

/-! ### The last slots -/

namespace Object

/-- The instances of the sub-objects have the slots behind those of the methods, as declared. -/
structure SubSlotted (object : Object) : Prop where
  subs : ∀ i sub, object.subs[i]? = some sub →
    sub.index = object.methods.length + 1 + total ((object.subs.take i).map (·.count))
  subSlots : object.subSlots = total (object.subs.map (·.count))
  fewMethods : object.methods.length + 1 ≤ 255

theorem Slotted.subSlotted {object : Object} (h : object.Slotted) :
  object.SubSlotted
  := ⟨h.subs, h.subSlots, h.fewMethods⟩

/-- The slots of a sub-object end where those of the next one begin. -/
theorem SubSlotted.index_add_count {object : Object} (h : object.SubSlotted) {i : Nat}
    {sub : SubObject} (hsub : object.subs[i]? = some sub) :
  sub.index + sub.count
    = object.methods.length + 1 + total ((object.subs.take (i + 1)).map (·.count))
  := by
  obtain ⟨hi, rfl⟩ := List.getElem?_eq_some_iff.mp hsub
  rw [h.subs i _ hsub, List.take_succ_eq_append_getElem hi, List.map_append, total_eq_sum,
    total_eq_sum, List.sum_append, List.map_singleton, List.sum_singleton, Nat.add_assoc]

/-- All slots of sub-objects have numbers of one byte exactly if the methods and the instances
together are at most 255. -/
theorem SubSlotted.slots_le_iff {object : Object} (h : object.SubSlotted)
    (hcounted : object.Counted) :
  (∀ sub ∈ object.subs, sub.index + sub.count - 1 ≤ 255)
    ↔ object.methods.length + object.subSlots ≤ 255
  := by
  have hfew := h.fewMethods
  rw [h.subSlots]
  constructor
  · intro hslots
    cases hlast : object.subs.getLast? with
    | none =>
      rw [List.getLast?_eq_none_iff.mp hlast]
      show object.methods.length + 0 ≤ 255
      omega
    | some last =>
      have hplace : object.subs[object.subs.length - 1]? = some last := by
        rw [← List.getLast?_eq_getElem?, hlast]
      have hend := h.index_add_count hplace
      rw [List.take_of_length_le (by omega)] at hend
      have hmem := List.mem_of_getElem? hplace
      have hbound := hslots last hmem
      have hcount := hcounted last hmem
      omega
  · intro hall sub hsub
    obtain ⟨i, hi⟩ := List.mem_iff_getElem?.mp hsub
    have hend := h.index_add_count hi
    have hle : total ((object.subs.take (i + 1)).map (·.count))
        ≤ total (object.subs.map (·.count)) := by
      rw [total_eq_sum, total_eq_sum]
      apply List.Sublist.sum_le_sum ((List.take_sublist _ _).map _)
      intro count _
      apply Nat.zero_le
    omega

theorem withSubSlots_subSlotted (object : Object) {counts : List Nat}
    (hlength : counts.length = object.subs.length) (hmethods : object.methods.length + 1 ≤ 255) :
  ((object.withSubSlots counts).withTable (total counts)).SubSlotted
  := by
  obtain ⟨hcounts, hindex⟩ := placeSubs_spec hlength (object.methods.length + 1)
  have hcounts' : ((object.withSubSlots counts).withTable (total counts)).subs.map (·.count)
      = counts := hcounts
  refine ⟨?_, congrArg total hcounts'.symm, hmethods⟩
  intro i sub hsub
  rw [List.map_take, hcounts']
  exact hindex i sub hsub

end Object

/-- Giving out slots puts the instances behind the methods. -/
theorem Step.placeSubs_subSlotted {id : ObjId} {s s' : Build} {u : Unit}
    (h : Yields (placeSubs id) s u s') (hid : id < s.objects.length) :
  (s'.object id).SubSlotted
  := by
  obtain ⟨counts, memo, hmapM, _, hfewMethods, rfl⟩ := yields_placeSubs h
  rw [Build.object_modifyObject_self _ (by simpa using hid),
    Build.object_modifyObject_self _ (by simpa using hid)]
  apply (s.object id).withSubSlots_subSlotted (length_of_mapM hmapM) hfewMethods

end SpinHub
