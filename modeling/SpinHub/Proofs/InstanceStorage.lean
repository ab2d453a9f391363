import Mathlib
import SpinHub.Proofs.Bytes
import SpinHub.Proofs.InstanceSlots

/-!
# Instance storage

The variables of an instance stand in front of those of the instances inside it, and each slot
that owns variables has a region for all of them. So the blocks of different instances lie apart
and inside the total of the root, whatever has been compiled or shared so far.
-/

namespace SpinHub

/-- The declarations of an object's instance slots, in the order of the slots. -/
def Object.slotDecls (object : Object) : List SubObject :=
  object.subs.flatMap fun sub => List.replicate sub.count sub

theorem mem_subs_of_mem_slotDecls {object : Object} {decl : SubObject}
    (h : decl ∈ object.slotDecls) :
  decl ∈ object.subs
  := by
  obtain ⟨sub, hsub, hmem⟩ := List.mem_flatMap.mp h
  rwa [List.eq_of_mem_replicate hmem]

/-! ### Slots -/

theorem total_append (front back : List Nat) :
  total (front ++ back) = total front + total back
  := by
  simp [total_eq_sum]

theorem total_replicate (count n : Nat) :
  total (List.replicate count n) = count * n
  := by
  simp [total_eq_sum]

/-- An instance stands behind all that its slots in front of it take. -/
theorem getElem?_instancesFrom (objects : List Object) (offset : Nat) (subs : List SubObject)
    (k : Nat) :
  let decls := subs.flatMap fun sub => List.replicate sub.count sub
  (instancesFrom objects offset subs)[k]? = decls[k]?.map fun decl =>
    (decl.target, offset + total ((decls.take k).map (instanceStep objects)))
  := by
  induction subs generalizing offset k with
  | nil => rfl
  | cons sub subs ih =>
    simp only [instancesFrom, List.flatMap_cons]
    by_cases hk : k < sub.count
    · rw [List.getElem?_append_left (by simpa using hk),
        List.getElem?_append_left (by simpa using hk),
        List.take_append_of_le_length (by simpa using hk.le), List.take_replicate,
        min_eq_left hk.le, List.map_replicate, total_replicate]
      simp [hk]
    · have hcount : sub.count ≤ k := Nat.le_of_not_lt hk
      have hfront : (List.replicate sub.count sub).take k = List.replicate sub.count sub :=
        List.take_of_length_le (by simpa using hcount)
      rw [List.getElem?_append_right (by simpa using hcount),
        List.getElem?_append_right (by simpa using hcount), List.take_append, hfront,
        List.map_append, total_append]
      simp only [List.length_map, List.length_range, List.length_replicate, List.map_replicate,
        total_replicate, ih, Nat.add_assoc]

/-- The instances that own variables, and the steps of all slots. -/
theorem total_slots (objects : List Object) (subs : List SubObject) :
  total ((subs.flatMap fun sub => List.replicate sub.count sub).map (instanceStep objects))
    = total ((subs.filter (·.ownsVars)).map fun sub =>
        sub.count * varTotal objects objects.length sub.target)
  := by
  induction subs with
  | nil => rfl
  | cons sub subs ih =>
    rw [List.flatMap_cons, List.map_append, total_append, ih, List.map_replicate, total_replicate]
    by_cases howns : sub.ownsVars
    · rw [List.filter_cons_of_pos howns, List.map_cons, instanceStep, if_pos howns]
      rfl
    · rw [List.filter_cons_of_neg howns, instanceStep, if_neg howns, Nat.mul_zero, Nat.zero_add]

/-- Only slots that own variables take any. -/
theorem total_steps (objects : List Object) (decls : List SubObject) :
  total (decls.map (instanceStep objects))
    = total ((decls.filter (·.ownsVars)).map fun decl =>
        varTotal objects objects.length decl.target)
  := by
  induction decls with
  | nil => rfl
  | cons decl decls ih =>
    rw [List.map_cons, ← List.singleton_append, total_append, ih]
    by_cases howns : decl.ownsVars
    · rw [List.filter_cons_of_pos howns, List.map_cons, instanceStep, if_pos howns]
      rfl
    · rw [List.filter_cons_of_neg howns, instanceStep, if_neg howns]
      apply Nat.zero_add

/-- Where the variables of slot `k` of an object start, from those of the object on. -/
def slotOffset (objects : List Object) (object : Object) (k : Nat) : Nat :=
  object.varSize + total ((object.slotDecls.take k).map (instanceStep objects))

variable {objects : List Object} {object : Object} {k l : Nat} {decl : SubObject}

/-- An instance has the target of its slot, and its variables at the offset of the slot. -/
theorem getElem?_instances (objects : List Object) (id : ObjId) (k : Nat) :
  (instances objects id)[k]? = (objectAt objects id).slotDecls[k]?.map fun decl =>
    (decl.target, slotOffset objects (objectAt objects id) k)
  := by
  apply getElem?_instancesFrom

/-- The next slot starts behind what a slot takes. -/
theorem slotOffset_succ (h : object.slotDecls[k]? = some decl) :
  slotOffset objects object (k + 1)
    = slotOffset objects object k + instanceStep objects decl
  := by
  obtain ⟨hk, rfl⟩ := List.getElem?_eq_some_iff.mp h
  rw [slotOffset, slotOffset, List.take_add_one, List.getElem?_eq_getElem hk, Option.toList_some,
    List.map_append, total_append, Nat.add_assoc]
  rfl

/-- Later slots have later offsets. -/
theorem slotOffset_mono (h : k ≤ l) :
  slotOffset objects object k ≤ slotOffset objects object l
  := by
  obtain ⟨n, rfl⟩ := Nat.exists_eq_add_of_le h
  rw [slotOffset, slotOffset, List.take_add, List.map_append, total_append]
  omega

section Ranked

variable {rank : ObjId → Nat} (hranked : Ranked objects [] rank) {id : ObjId}
  (hid : id < objects.length)

include hranked hid

/-- A total is where the slots end. -/
theorem varTotal_eq_slotOffset :
  varTotal objects objects.length id
    = slotOffset objects (objectAt objects id) (objectAt objects id).slotDecls.length
  := by
  rw [varTotal_unfold hranked hid, slotOffset, List.take_length, Object.slotDecls, total_slots]

/-- The variables of a slot start inside the total. -/
theorem slotOffset_le_varTotal (hk : k ≤ (objectAt objects id).slotDecls.length) :
  slotOffset objects (objectAt objects id) k ≤ varTotal objects objects.length id
  := by
  rw [varTotal_eq_slotOffset hranked hid]
  apply slotOffset_mono hk

end Ranked

theorem varSize_le_varTotal (objects : List Object) (depth : Nat) (id : ObjId) :
  (objectAt objects id).varSize ≤ varTotal objects depth id
  := by
  cases depth with
  | zero => rfl
  | succ depth => apply Nat.le_add_right

/-- Totals are whole longs if the variables of each object are. -/
theorem dvd_varTotal (haligned : ∀ id, 4 ∣ (objectAt objects id).varSize) (depth : Nat)
    (id : ObjId) :
  4 ∣ varTotal objects depth id
  := by
  induction depth generalizing id with
  | zero => apply haligned
  | succ depth ih =>
    rw [varTotal, total_eq_sum]
    apply Nat.dvd_add (haligned id)
    apply List.dvd_sum
    intro n hn
    obtain ⟨sub, _, rfl⟩ := List.mem_map.mp hn
    apply Dvd.dvd.mul_left (ih sub.target)

/-- Offsets of slots are whole longs if the variables of each object are. -/
theorem dvd_slotOffset (haligned : ∀ id, 4 ∣ (objectAt objects id).varSize) (id : ObjId) (k : Nat) :
  4 ∣ slotOffset objects (objectAt objects id) k
  := by
  rw [slotOffset, total_eq_sum]
  apply Nat.dvd_add (haligned id)
  apply List.dvd_sum
  intro n hn
  obtain ⟨decl, _, rfl⟩ := List.mem_map.mp hn
  rw [instanceStep]
  split_ifs
  · apply dvd_varTotal haligned
  · apply dvd_zero

/-! ### Instances -/

/-- An instance: the object that it was declared for, and where its variables start. -/
structure Instance where
  object : ObjId
  base : Nat
  deriving DecidableEq

namespace Build

/-- The slots of an object as the build computes them. -/
def entriesOf (build : Build) (id : ObjId) : List Entry := ((entries id).run build).1

/-- The total of an object as the build computes it. -/
def totalOf (build : Build) (id : ObjId) : Nat := ((totalVarSize id).run build).1

/-- The instance that a path of slots leads to. Every slot on the path has to own its variables,
and the offsets of the slots add up. -/
def instanceFrom? (build : Build) (here : Instance) : List Nat → Option Instance
  | [] => some here
  | k :: path => do
    let decl ← (build.object here.object).slotDecls[k]?
    let entry ← (build.entriesOf here.object)[k]?
    if decl.ownsVars then instanceFrom? build ⟨decl.target, here.base + entry.2⟩ path else none

/-- The instance that a path of slots leads to from the root. -/
def instanceAt? (build : Build) (path : List Nat) : Option Instance :=
  build.instanceFrom? ⟨root, 0⟩ path

/-- What the storage of a build rests on: includes go down in rank, variables take whole longs,
and what is remembered of totals is right. -/
structure Stocked (build : Build) : Prop where
  nonempty : 0 < build.objects.length
  ranked : ∃ rank, Ranked build.objects [] rank
  aligned : ∀ id, 4 ∣ (build.object id).varSize
  totals : TotalsKnown build.objects build.totals

namespace Stocked

variable {build : Build} (h : build.Stocked)

include h

/-- The entries of an object are its slots. -/
theorem entriesOf_eq {id : ObjId} (hid : id < build.objects.length) :
  build.entriesOf id = build.slots id
  := by
  obtain ⟨rank, hranked⟩ := h.ranked
  exact (entries_computes hranked hid build ⟨build.totals, rfl, h.totals⟩).1

theorem totalOf_eq {id : ObjId} (hid : id < build.objects.length) :
  build.totalOf id = varTotal build.objects build.objects.length id
  := by
  obtain ⟨rank, hranked⟩ := h.ranked
  exact (totalVarSize_computes hranked hid build ⟨build.totals, rfl, h.totals⟩).1

/-- The first slot of a path leads to an object, from the offset of the slot on. -/
theorem first_slot {here x : Instance} {k : Nat} {path : List Nat}
    (hid : here.object < build.objects.length)
    (hpath : build.instanceFrom? here (k :: path) = some x) :
  ∃ decl, (build.object here.object).slotDecls[k]? = some decl ∧ decl.ownsVars
    ∧ decl.target < build.objects.length
    ∧ build.instanceFrom? ⟨decl.target, here.base
        + slotOffset build.objects (build.object here.object) k⟩ path = some x
  := by
  obtain ⟨rank, hranked⟩ := h.ranked
  obtain ⟨decl, hdecl, hrest⟩ := Option.bind_eq_some_iff.mp hpath
  obtain ⟨entry, hentry, hrest⟩ := Option.bind_eq_some_iff.mp hrest
  have hoffset : entry.2 = slotOffset build.objects (build.object here.object) k := by
    have hinstance := getElem?_instances build.objects here.object k
    rw [← Build.object, hdecl] at hinstance
    rw [h.entriesOf_eq hid, slots, List.getElem?_map, hinstance] at hentry
    cases hentry
    rfl
  have hsub := mem_subs_of_mem_slotDecls (List.mem_of_getElem? hdecl)
  split_ifs at hrest with howns
  rw [hoffset] at hrest
  exact ⟨decl, hdecl, howns, (hranked.target hid hsub).1, hrest⟩

omit h in
/-- A path in two parts leads through the instance between them. -/
theorem instanceFrom?_append (here : Instance) (p q : List Nat) :
  build.instanceFrom? here (p ++ q)
    = (build.instanceFrom? here p).bind fun x => build.instanceFrom? x q
  := by
  induction p generalizing here with
  | nil => rfl
  | cons k p ih =>
    rw [List.cons_append, instanceFrom?, instanceFrom?]
    cases (build.object here.object).slotDecls[k]? with
    | none => rfl
    | some decl =>
      cases (build.entriesOf here.object)[k]? with
      | none => rfl
      | some entry =>
        simp only [Option.bind_eq_bind, Option.bind_some]
        split_ifs
        · apply ih
        · rfl

/-- A slot that owns variables leads on. -/
theorem last_slot {here x : Instance} {p : List Nat} {k : Nat} {decl : SubObject}
    (hx : x.object < build.objects.length) (hp : build.instanceFrom? here p = some x)
    (hdecl : (build.object x.object).slotDecls[k]? = some decl) (howns : decl.ownsVars) :
  ∃ base, build.instanceFrom? here (p ++ [k]) = some ⟨decl.target, base⟩
  := by
  have hinstance := getElem?_instances build.objects x.object k
  rw [← Build.object, hdecl] at hinstance
  have hentry : (build.entriesOf x.object)[k]? = some (build.survivor decl.target,
      slotOffset build.objects (build.object x.object) k) := by
    rw [h.entriesOf_eq hx, slots, List.getElem?_map, hinstance]
    rfl
  use x.base + slotOffset build.objects (build.object x.object) k
  simp [instanceFrom?_append, hp, instanceFrom?, hdecl, hentry, howns]

/-- What a slot that owns variables takes lies inside the object's total. -/
theorem slot_inside {id : ObjId} {k : Nat} {decl : SubObject} (hid : id < build.objects.length)
    (hdecl : (build.object id).slotDecls[k]? = some decl) (howns : decl.ownsVars) :
  slotOffset build.objects (build.object id) (k + 1)
      = slotOffset build.objects (build.object id) k
        + varTotal build.objects build.objects.length decl.target
    ∧ slotOffset build.objects (build.object id) (k + 1)
      ≤ varTotal build.objects build.objects.length id
  := by
  obtain ⟨rank, hranked⟩ := h.ranked
  constructor
  · rw [slotOffset_succ hdecl, instanceStep, if_pos howns]
  · apply slotOffset_le_varTotal hranked hid
    apply Nat.succ_le_of_lt (List.getElem?_eq_some_iff.mp hdecl).1

/-- All that is reached from an instance lies in its region, and behind its own variables but for
the instance itself. -/
theorem region {here x : Instance} {path : List Nat} (hid : here.object < build.objects.length)
    (hpath : build.instanceFrom? here path = some x) :
  x.object < build.objects.length
    ∧ x.base + varTotal build.objects build.objects.length x.object
      ≤ here.base + varTotal build.objects build.objects.length here.object
    ∧ (path ≠ [] → here.base + (build.object here.object).varSize ≤ x.base)
    ∧ here.base ≤ x.base ∧ (4 ∣ here.base → 4 ∣ x.base)
  := by
  induction path generalizing here with
  | nil =>
    cases hpath
    exact ⟨hid, le_rfl, fun hne => absurd rfl hne, le_rfl, fun h => h⟩
  | cons k path ih =>
    obtain ⟨decl, hdecl, howns, htarget, hrest⟩ := h.first_slot hid hpath
    obtain ⟨hnext, hinside⟩ := h.slot_inside hid hdecl howns
    obtain ⟨hx, hregion, _, hbase, hdvd⟩ := ih htarget hrest
    have hfirst : (build.object here.object).varSize
        ≤ slotOffset build.objects (build.object here.object) k := Nat.le_add_right ..
    simp only at hregion hbase hdvd
    refine ⟨hx, by omega, fun _ => by omega, by omega, ?_⟩
    intro hhere
    apply hdvd
    apply Nat.dvd_add hhere (dvd_slotOffset h.aligned here.object k)

/-- The own variables of different instances lie apart. -/
theorem apart {here x y : Instance} {p q : List Nat} (hid : here.object < build.objects.length)
    (hp : build.instanceFrom? here p = some x) (hq : build.instanceFrom? here q = some y)
    (hne : p ≠ q) :
  x.base + (build.object x.object).varSize ≤ y.base
    ∨ y.base + (build.object y.object).varSize ≤ x.base
  := by
  induction p generalizing here q with
  | nil =>
    cases hp
    left
    apply (h.region hid hq).2.2.1 hne.symm
  | cons k p ih =>
    cases q with
    | nil =>
      cases hq
      right
      apply (h.region hid hp).2.2.1 hne
    | cons l q =>
      obtain ⟨decl, hdecl, howns, htarget, hp⟩ := h.first_slot hid hp
      obtain ⟨decl', hdecl', howns', htarget', hq⟩ := h.first_slot hid hq
      by_cases hkl : k = l
      · subst hkl
        cases hdecl.symm.trans hdecl'
        apply ih htarget hp hq
        rintro rfl
        exact hne rfl
      · -- each lies in the region of its slot, and one slot starts behind the other
        obtain ⟨hnext, _⟩ := h.slot_inside hid hdecl howns
        obtain ⟨hnext', _⟩ := h.slot_inside hid hdecl' howns'
        obtain ⟨_, hregion, _, hbase, _⟩ := h.region htarget hp
        obtain ⟨_, hregion', _, hbase', _⟩ := h.region htarget' hq
        have hown := varSize_le_varTotal build.objects build.objects.length x.object
        have hown' := varSize_le_varTotal build.objects build.objects.length y.object
        rw [← Build.object] at hown hown'
        simp only at hregion hbase hregion' hbase'
        rcases Nat.lt_or_gt_of_ne hkl with hlt | hgt
        · have hmono : slotOffset build.objects (build.object here.object) (k + 1)
              ≤ slotOffset build.objects (build.object here.object) l := slotOffset_mono hlt
          left
          omega
        · have hmono : slotOffset build.objects (build.object here.object) (l + 1)
              ≤ slotOffset build.objects (build.object here.object) k := slotOffset_mono hgt
          right
          omega

end Stocked

/-- How the storage of a build is laid out. -/
structure Storage (build : Build) : Prop where
  /-- Every slot of an instance that owns variables holds an instance. -/
  reached : ∀ p x k decl, build.instanceAt? p = some x →
    (build.object x.object).slotDecls[k]? = some decl → decl.ownsVars →
    ∃ base, build.instanceAt? (p ++ [k]) = some ⟨decl.target, base⟩
  /-- The own variables of different instances lie apart. -/
  apart : ∀ p q x y, build.instanceAt? p = some x → build.instanceAt? q = some y → p ≠ q →
    x.base + (build.object x.object).varSize ≤ y.base
      ∨ y.base + (build.object y.object).varSize ≤ x.base
  /-- They lie inside the total of the root. -/
  inside : ∀ p x, build.instanceAt? p = some x →
    x.base + (build.object x.object).varSize ≤ build.totalOf root
  aligned : ∀ p x, build.instanceAt? p = some x → x.base % 4 = 0
  /-- A total is the object's own variables and the totals of the instances that own theirs. -/
  totals : ∀ id < build.objects.length, build.totalOf id = (build.object id).varSize
    + total (((build.object id).slotDecls.filter (·.ownsVars)).map fun decl =>
        build.totalOf decl.target)
  /-- So is every total that is remembered. -/
  remembered : ∀ id size, build.totals.lookup id = some size → size = (build.object id).varSize
    + total (((build.object id).slotDecls.filter (·.ownsVars)).map fun decl =>
        build.totalOf decl.target)
  /-- An object that takes the place of others has their slots. -/
  shared : ∀ id < build.objects.length, build.entriesOf (build.survivor id) = build.entriesOf id

/-- The total of an object is its own variables and those of the instances that own theirs. -/
theorem Stocked.varTotal_eq {build : Build} (h : build.Stocked) (id : ObjId) :
  varTotal build.objects build.objects.length id = (build.object id).varSize
    + total (((build.object id).slotDecls.filter (·.ownsVars)).map fun decl =>
        build.totalOf decl.target)
  := by
  obtain ⟨rank, hranked⟩ := h.ranked
  by_cases hid : id < build.objects.length
  · rw [varTotal_eq_slotOffset hranked hid, slotOffset, List.take_length, total_steps,
      ← Build.object]
    congr 2
    apply List.map_congr_left
    intro decl hdecl
    have htarget := (hranked.target hid (mem_subs_of_mem_slotDecls
      (List.mem_of_mem_filter hdecl))).1
    rw [h.totalOf_eq htarget]
  · have hobject : objectAt build.objects id = default := objectAt_of_le (Nat.le_of_not_lt hid)
    rw [Build.object, hobject]
    cases build.objects.length with
    | zero => rw [varTotal, hobject]; rfl
    | succ n => rw [varTotal, hobject]; rfl

/-- The storage is laid out if an object and what takes its place have equal slots. -/
theorem Stocked.storage {build : Build} (h : build.Stocked)
    (hshared : ∀ id < build.objects.length, build.survivor id < build.objects.length
      ∧ build.slots (build.survivor id) = build.slots id) :
  build.Storage
  := by
  obtain ⟨rank, hranked⟩ := h.ranked
  have hroot : root < build.objects.length := h.nonempty
  refine ⟨?_, ?_, ?_, ?_, ?_, ?_, ?_⟩
  · intro p x k decl hp hdecl howns
    apply h.last_slot (h.region hroot hp).1 hp hdecl howns
  · intro p q x y hp hq hne
    apply h.apart hroot hp hq hne
  · intro p x hp
    have hregion := (h.region hroot hp).2.1
    have hown := varSize_le_varTotal build.objects build.objects.length x.object
    rw [← Build.object] at hown
    rw [h.totalOf_eq hroot]
    simp only at hregion
    omega
  · intro p x hp
    apply Nat.mod_eq_zero_of_dvd ((h.region hroot hp).2.2.2.2 (dvd_zero 4))
  · intro id hid
    rw [h.totalOf_eq hid, h.varTotal_eq]
  · intro id size hsize
    rw [h.totals id size hsize, h.varTotal_eq]
  · intro id hid
    obtain ⟨hsurvivor, hslots⟩ := hshared id hid
    rw [h.entriesOf_eq hsurvivor, h.entriesOf_eq hid, hslots]

end Build

end SpinHub
