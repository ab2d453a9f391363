import Mathlib
import SpinHub.Proofs.CountedSlots
import SpinHub.Proofs.IncludeGraph
import SpinHub.Proofs.SharedObjects

/-!
# The root is not shared

An object that takes the place of another one has the same slots, so as many levels of slots lie
below it. Every other object lies below the root, and fewer levels lie below it than below the
root. So nothing takes the place of the root.
-/

namespace SpinHub

/-- The objects that an object includes. -/
def Object.targets (object : Object) : List ObjId := object.subs.map (·.target)

namespace Build

/-- An object has another one as a sub-object. -/
def Uses (build : Build) (id other : ObjId) : Prop :=
  id < build.objects.length ∧ other ∈ (build.object id).targets

/-- A number of levels of slots lies below an object. -/
def Descends (build : Build) : Nat → ObjId → Prop
  | 0, _ => True
  | levels + 1, id => ∃ entry ∈ build.slots id, build.Descends levels entry.1

/-- A sub-object with an instance has a slot. -/
theorem mem_slots {build : Build} {id : ObjId} {sub : SubObject}
    (hsub : sub ∈ (build.object id).subs) (hcount : 0 < sub.count) :
  ∃ offset, (build.survivor sub.target, offset) ∈ build.slots id
  := by
  obtain ⟨i, hi⟩ := List.mem_iff_getElem?.mp hsub
  obtain ⟨offset, hinstance⟩ := @instancesFrom_getElem? build.objects _ _ _ _ hi hcount
    (build.object id).varSize
  exact ⟨offset, List.mem_map.mpr ⟨_, List.mem_of_getElem? hinstance, rfl⟩⟩

/-- Every slot leads to what has taken the place of a sub-object. -/
theorem sub_of_mem_slots {build : Build} {id : ObjId} {entry : Entry}
    (h : entry ∈ build.slots id) :
  ∃ sub ∈ (build.object id).subs, entry.1 = build.survivor sub.target
  := by
  obtain ⟨declared, hdeclared, rfl⟩ := List.mem_map.mp h
  obtain ⟨sub, hsub, htarget⟩ := sub_of_mem_instancesFrom hdeclared
  exact ⟨sub, hsub, congrArg build.survivor htarget⟩

namespace Sharing

variable {laid build : Build} {pending : List ObjId} (h : Sharing laid build pending)

include h

/-- What takes the place of an object has its slots. -/
theorem slots_survivor (id : ObjId) :
  build.slots (build.survivor id) = build.slots id
  := by
  rw [h.survivor]
  cases hlink : (build.object id).replacement with
  | none => rfl
  | some target => exact (h.alike id target hlink).slots.symm

theorem descends_survivor {levels : Nat} {id : ObjId} :
  build.Descends levels (build.survivor id) ↔ build.Descends levels id
  := by
  cases levels with
  | zero => rfl
  | succ levels => rw [Descends, Descends, h.slots_survivor]

/-- One level more lies below an object than below a sub-object of it. -/
theorem descends_succ {levels : Nat} {id other : ObjId} (huses : build.Uses id other)
    (hcounted : (build.object id).Counted) (hdescends : build.Descends levels other) :
  build.Descends (levels + 1) id
  := by
  obtain ⟨sub, hsub, rfl⟩ := List.mem_map.mp huses.2
  obtain ⟨offset, hslot⟩ := mem_slots hsub (hcounted sub hsub)
  exact ⟨_, hslot, h.descends_survivor.mpr hdescends⟩

/-- No more levels lie below an object than its rank says. -/
theorem levels_le {rank : ObjId → Nat} (hranked : Ranked build.objects [] rank) {levels : Nat}
    {id : ObjId} (hid : id < build.objects.length) (hdescends : build.Descends levels id) :
  levels ≤ rank id
  := by
  induction levels generalizing id with
  | zero => apply Nat.zero_le
  | succ levels ih =>
    obtain ⟨entry, hentry, hbelow⟩ := hdescends
    obtain ⟨sub, hsub, htarget⟩ := sub_of_mem_slots hentry
    rw [htarget, h.descends_survivor] at hbelow
    obtain ⟨hless, hrank⟩ := hranked.target hid hsub
    have hle := ih hless hbelow
    omega

section Counted

variable (hcounted : ∀ id < build.objects.length, (build.object id).Counted)

include hcounted

/-- More levels lie below an object than below those that a chain of sub-objects leads to. -/
theorem descends_of_chain {levels : Nat} {id other : ObjId}
    (hchain : Relation.TransGen build.Uses id other) (hdescends : build.Descends levels other) :
  ∃ more > levels, build.Descends more id
  := by
  induction hchain using Relation.TransGen.head_induction_on with
  | single huses =>
    exact ⟨_, Nat.lt_succ_self levels, h.descends_succ huses (hcounted _ huses.1) hdescends⟩
  | head huses _ ih =>
    obtain ⟨more, hmore, hbelow⟩ := ih
    exact ⟨more + 1, Nat.lt_succ_of_lt hmore, h.descends_succ huses (hcounted _ huses.1) hbelow⟩

/-- An object is never replaced by one that a chain of sub-objects leads to. -/
theorem replacement_ne_of_chain {rank : ObjId → Nat} (hranked : Ranked build.objects [] rank)
    {id other : ObjId} (hid : id < build.objects.length)
    (hchain : Relation.TransGen build.Uses id other) :
  (build.object id).replacement ≠ some other
  := by
  intro hlink
  -- the levels below the two are the same, and there is one more below the first
  have hdeep (levels : Nat) : ∃ more ≥ levels, build.Descends more id := by
    induction levels with
    | zero => exact ⟨0, le_rfl, trivial⟩
    | succ levels ih =>
      obtain ⟨more, hmore, hbelow⟩ := ih
      rw [← h.descends_survivor, h.survivor, hlink, Option.getD_some] at hbelow
      obtain ⟨further, hfurther, hbelow'⟩ := h.descends_of_chain hcounted hchain hbelow
      exact ⟨further, by omega, hbelow'⟩
  obtain ⟨more, hmore, hbelow⟩ := hdeep (rank id + 1)
  have hle := h.levels_le hranked hid hbelow
  omega

/-- Nothing takes the place of an object that all others lie below. -/
theorem replacement_eq_none {rank : ObjId → Nat} (hranked : Ranked build.objects [] rank)
    {id : ObjId} (hid : id < build.objects.length)
    (hbelow : ∀ other < build.objects.length, Relation.ReflTransGen build.Uses id other) :
  (build.object id).replacement = none
  := by
  cases hlink : (build.object id).replacement with
  | none => rfl
  | some other =>
    obtain ⟨hother, _, hnone⟩ := h.target id other hlink
    rcases Relation.reflTransGen_iff_eq_or_transGen.mp (hbelow other hother) with heq | hchain
    · rw [heq, hlink] at hnone
      cases hnone
    · exact absurd hlink (h.replacement_ne_of_chain hcounted hranked hid hchain)

end Counted

end Sharing

theorem Uses.of_agree {b b' : Build} (h : b.Agree Object.targets b') {id other : ObjId}
    (huses : b.Uses id other) :
  b'.Uses id other
  := by
  rw [Uses, h.objects, h.length]
  exact huses

end Build

/-! ### Objects below the root -/

end SpinHub
