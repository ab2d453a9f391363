import Mathlib
import SpinHub.Layout.Instances
import SpinHub.Proofs.Registered

/-!
# Instance slots

Totals of variables are remembered once they are computed, and their depth is bounded. Where
includes go down in rank neither is seen: the slots of an object are those of `instances`, each
led to the object that has taken the place of its own.
-/

namespace SpinHub

variable {σ α β : Type}

/-- A computation on a state has the result `a` and keeps what holds of the state. -/
def Computes (holds : σ → Prop) (action : StateM σ α) (a : α) : Prop :=
  ∀ s, holds s → (action.run s).1 = a ∧ holds (action.run s).2

theorem Computes.pure {holds : σ → Prop} (a : α) :
  Computes holds (pure a) a
  := fun _ h => ⟨rfl, h⟩

theorem Computes.bind {holds : σ → Prop} {x : StateM σ α} {f : α → StateM σ β} {a : α} {b : β}
    (hx : Computes holds x a) (hf : Computes holds (f a) b) :
  Computes holds (x >>= f) b
  := by
  intro s hs
  obtain ⟨ha, hm⟩ := hx s hs
  have hrun : (x >>= f).run s = (f a).run (x.run s).2 := by
    rw [← ha]
    rfl
  rw [hrun]
  apply hf _ hm

theorem Computes.mapM {holds : σ → Prop} {f : α → StateM σ β} {g : α → β} {items : List α}
    (h : ∀ item ∈ items, Computes holds (f item) (g item)) :
  Computes holds (items.mapM f) (items.map g)
  := by
  induction items with
  | nil => apply Computes.pure
  | cons item items ih =>
    rw [List.mapM_cons, List.map_cons]
    apply Computes.bind (h item List.mem_cons_self)
    apply Computes.bind (ih fun other hother => h other (List.mem_cons_of_mem item hother))
    apply Computes.pure

theorem Computes.get_bind {holds : σ → Prop} {f : σ → StateM σ α} {a : α}
    (h : ∀ s, holds s → Computes holds (f s) a) :
  Computes holds (get >>= f) a
  := fun s hs => h s hs s hs

theorem Computes.modify {holds : σ → Prop} {f : σ → σ} (h : ∀ s, holds s → holds (f s)) :
  Computes holds (modify f) ⟨⟩
  := fun s hs => ⟨rfl, h s hs⟩

/-! ### Totals -/

/-- The total of an object whose includes are at most `depth` deep. -/
def varTotal (objects : List Object) : Nat → ObjId → Nat
  | 0, id => (objectAt objects id).varSize
  | depth + 1, id =>
    (objectAt objects id).varSize
      + total (((objectAt objects id).subs.filter (·.ownsVars)).map fun sub =>
          sub.count * varTotal objects depth sub.target)

section Ranked

variable {objects : List Object} {rank : ObjId → Nat} (hranked : Ranked objects [] rank)

include hranked

theorem Ranked.target {id : ObjId} (hid : id < objects.length) {sub : SubObject}
    (hsub : sub ∈ (objectAt objects id).subs) :
  sub.target < objects.length ∧ rank sub.target < rank id
  := by
  obtain ⟨htarget, _, hless⟩ := (hranked id hid List.not_mem_nil).2 sub hsub
  exact ⟨htarget, hless⟩

theorem varTotal_of_rank_zero {id : ObjId} (hid : id < objects.length) (h : rank id = 0)
    (depth : Nat) :
  varTotal objects depth id = (objectAt objects id).varSize
  := by
  cases depth with
  | zero => rfl
  | succ depth =>
    have hsubs : (objectAt objects id).subs = [] := by
      apply List.eq_nil_iff_forall_not_mem.mpr
      intro sub hsub
      have := (hranked.target hid hsub).2
      omega
    rw [varTotal, hsubs]
    rfl

/-- The depth does not matter as long as the rank is within it. -/
theorem varTotal_eq {depth depth' : Nat} {id : ObjId} (hid : id < objects.length)
    (h : rank id ≤ depth) (h' : rank id ≤ depth') :
  varTotal objects depth id = varTotal objects depth' id
  := by
  induction depth generalizing depth' id with
  | zero =>
    have hzero : rank id = 0 := Nat.le_zero.mp h
    rw [varTotal_of_rank_zero hranked hid hzero, varTotal_of_rank_zero hranked hid hzero]
  | succ depth ih =>
    cases depth' with
    | zero =>
      have hzero : rank id = 0 := Nat.le_zero.mp h'
      rw [varTotal_of_rank_zero hranked hid hzero, varTotal_of_rank_zero hranked hid hzero]
    | succ depth' =>
      rw [varTotal, varTotal]
      congr 2
      apply List.map_congr_left
      intro sub hsub
      obtain ⟨htarget, hless⟩ := hranked.target hid (List.mem_of_mem_filter hsub)
      have hsame : varTotal objects depth sub.target = varTotal objects depth' sub.target :=
        ih htarget (by omega) (by omega)
      rw [hsame]

/-- A total is the size of the object's own variables and the totals of what it includes. -/
theorem varTotal_unfold {id : ObjId} (hid : id < objects.length) :
  varTotal objects objects.length id
    = (objectAt objects id).varSize
      + total (((objectAt objects id).subs.filter (·.ownsVars)).map fun sub =>
          sub.count * varTotal objects objects.length sub.target)
  := by
  have hrank : rank id ≤ objects.length := (hranked id hid List.not_mem_nil).1.le
  rw [varTotal_eq hranked hid hrank (Nat.le_succ_of_le hrank), varTotal]

/-- What is remembered of totals is right. -/
def TotalsKnown (objects : List Object) (totals : Totals) : Prop :=
  ∀ id size, totals.lookup id = some size → size = varTotal objects objects.length id

theorem totalWithin_computes {depth : Nat} {id : ObjId} (hid : id < objects.length)
    (hdepth : rank id ≤ depth) :
  Computes (TotalsKnown objects) (totalWithin objects depth id)
    (varTotal objects objects.length id)
  := by
  induction depth generalizing id with
  | zero =>
    rw [varTotal_of_rank_zero hranked hid (Nat.le_zero.mp hdepth)]
    apply Computes.pure
  | succ depth ih =>
    rw [totalWithin]
    apply Computes.get_bind
    intro totals hknown
    cases hlookup : totals.lookup id with
    | some size =>
      rw [hknown id size hlookup]
      apply Computes.pure
    | none =>
      rw [varTotal_unfold hranked hid]
      refine Computes.bind (Computes.mapM ?_) (Computes.bind (Computes.modify ?_) (Computes.pure _))
      · intro sub hsub
        obtain ⟨htarget, hless⟩ := hranked.target hid (List.mem_of_mem_filter hsub)
        have hdeep : rank sub.target ≤ depth := by omega
        apply Computes.bind (ih htarget hdeep)
        apply Computes.pure
      · intro totals hknown other size hother
        rw [← varTotal_unfold hranked hid] at hother
        rw [List.lookup_cons] at hother
        split at hother
        · rename_i heq
          cases hother
          rw [beq_iff_eq.mp heq]
        · apply hknown other size hother

end Ranked

/-! ### Instances -/

/-- The variables of an instance, which follow those of the instance before it. -/
def instanceStep (objects : List Object) (sub : SubObject) : Nat :=
  if sub.ownsVars then varTotal objects objects.length sub.target else 0

/-- The instances of sub-objects from a variable offset on: the objects they were declared for,
and the offsets of their variables. -/
def instancesFrom (objects : List Object) : Nat → List SubObject → List Entry
  | _, [] => []
  | offset, sub :: rest =>
    (List.range sub.count).map (fun k => (sub.target, offset + k * instanceStep objects sub))
      ++ instancesFrom objects (offset + sub.count * instanceStep objects sub) rest

/-- The instances of all sub-objects of an object. -/
def instances (objects : List Object) (id : ObjId) : List Entry :=
  instancesFrom objects (objectAt objects id).varSize (objectAt objects id).subs

namespace Build

/-- The slots of an object: its instances, led to the objects that take their place. -/
def slots (build : Build) (id : ObjId) : List Entry :=
  (instances build.objects id).map fun entry => (build.survivor entry.1, entry.2)

theorem subEntries_eq (target : ObjId) (step count offset : Nat) :
  subEntries target step count offset
    = ((List.range count).map fun k => (target, offset + k * step), offset + count * step)
  := by
  induction count generalizing offset with
  | zero => simp [subEntries]
  | succ count ih =>
    have hrest (k : Nat) : offset + step + k * step = offset + (k + 1) * step := by ring
    rw [subEntries, ih, List.range_succ_eq_map, List.map_cons, List.map_map]
    simp only [hrest, Function.comp_def, Nat.zero_mul, Nat.add_zero]

/-- A build that differs at most in what it remembers of totals, which is right. -/
def Knows (build b : Build) : Prop :=
  ∃ totals, b = { build with totals } ∧ TotalsKnown build.objects totals

theorem withTotals_computes {build : Build} {action : List Object → StateM Totals α} {a : α}
    (h : Computes (TotalsKnown build.objects) (action build.objects) a) :
  Computes build.Knows (withTotals action) a
  := by
  rintro _ ⟨totals, rfl, hknown⟩
  obtain ⟨ha, hknown'⟩ := h totals hknown
  exact ⟨ha, _, rfl, hknown'⟩

theorem totalVarSize_computes {build : Build} {rank : ObjId → Nat}
    (hranked : Ranked build.objects [] rank) {id : ObjId} (hid : id < build.objects.length) :
  Computes build.Knows (totalVarSize id) (varTotal build.objects build.objects.length id)
  := by
  apply withTotals_computes
  apply totalWithin_computes hranked hid (hranked id hid List.not_mem_nil).1.le

theorem entriesFrom_computes {build b : Build} (hb : b.objects = build.objects)
    {rank : ObjId → Nat} (hranked : Ranked build.objects [] rank) {subs : List SubObject}
    (hsubs : ∀ sub ∈ subs, sub.target < build.objects.length) (offset : Nat) :
  Computes build.Knows (entriesFrom b offset subs)
    ((instancesFrom build.objects offset subs).map fun entry => (build.survivor entry.1, entry.2))
  := by
  induction subs generalizing offset with
  | nil => apply Computes.pure
  | cons sub subs ih =>
    have hsurvivor : b.survivor sub.target = build.survivor sub.target := by
      rw [survivor, survivor, hb]
    rw [entriesFrom, instancesFrom, List.map_append, List.map_map]
    simp only [subEntries_eq, hsurvivor]
    have hrest := ih (fun other hother => hsubs other (List.mem_cons_of_mem sub hother))
      (offset + sub.count * instanceStep build.objects sub)
    by_cases howns : sub.ownsVars
    · have hstep : instanceStep build.objects sub
          = varTotal build.objects build.objects.length sub.target := if_pos howns
      rw [hstep] at hrest ⊢
      rw [if_pos howns]
      apply Computes.bind (totalVarSize_computes hranked (hsubs sub List.mem_cons_self))
      apply Computes.bind hrest
      apply Computes.pure
    · have hstep : instanceStep build.objects sub = 0 := if_neg howns
      rw [hstep] at hrest ⊢
      rw [if_neg howns]
      apply Computes.bind (Computes.pure 0)
      apply Computes.bind hrest
      apply Computes.pure

/-- The slots of an object do not depend on what is remembered of totals. -/
theorem entries_computes {build : Build} {rank : ObjId → Nat}
    (hranked : Ranked build.objects [] rank) {id : ObjId} (hid : id < build.objects.length) :
  Computes build.Knows (entries id) (build.slots id)
  := by
  apply Computes.get_bind
  rintro _ ⟨totals, rfl, _⟩
  have hb : ({ build with totals } : Build).objects = build.objects := rfl
  apply entriesFrom_computes hb hranked
  intro sub hsub
  apply (hranked.target hid hsub).1

end Build

/-! ### Places of instances -/

theorem length_instancesFrom (objects : List Object) (offset : Nat) (subs : List SubObject) :
  (instancesFrom objects offset subs).length = total (subs.map (·.count))
  := by
  induction subs generalizing offset with
  | nil => rfl
  | cons sub subs ih =>
    rw [instancesFrom, List.length_append, List.length_map, List.length_range, ih]
    rfl

/-- Every instance is one of a sub-object. -/
theorem sub_of_mem_instancesFrom {objects : List Object} {offset : Nat} {subs : List SubObject}
    {entry : Entry} (h : entry ∈ instancesFrom objects offset subs) :
  ∃ sub ∈ subs, entry.1 = sub.target
  := by
  induction subs generalizing offset with
  | nil => cases h
  | cons sub subs ih =>
    rcases List.mem_append.mp h with hown | hrest
    · obtain ⟨k, _, rfl⟩ := List.mem_map.mp hown
      exact ⟨sub, List.mem_cons_self, rfl⟩
    · obtain ⟨other, hother, htarget⟩ := ih hrest
      exact ⟨other, List.mem_cons_of_mem sub hother, htarget⟩

/-- Instance `k` of sub-object `i` stands behind all instances of the sub-objects before it. -/
theorem instancesFrom_getElem? {objects : List Object} {subs : List SubObject} {i k : Nat}
    {sub : SubObject} (hsub : subs[i]? = some sub) (hk : k < sub.count) (offset : Nat) :
  ∃ start, (instancesFrom objects offset subs)[total ((subs.take i).map (·.count)) + k]?
    = some (sub.target, start)
  := by
  induction subs generalizing i offset with
  | nil => cases hsub
  | cons first subs ih =>
    cases i with
    | zero =>
      cases hsub
      use offset + k * instanceStep objects sub
      have hplace : k < ((List.range sub.count).map fun k =>
          (sub.target, offset + k * instanceStep objects sub)).length := by
        rwa [List.length_map, List.length_range]
      have hindex : total (((sub :: subs).take 0).map (·.count)) + k = k := Nat.zero_add k
      rw [hindex, instancesFrom, List.getElem?_append_left hplace, List.getElem?_map,
        List.getElem?_range hk, Option.map_some]
    | succ i =>
      obtain ⟨start, hstart⟩ := ih hsub (offset + first.count * instanceStep objects first)
      use start
      have hindex : total (((first :: subs).take (i + 1)).map (·.count)) + k
          = first.count + (total ((subs.take i).map (·.count)) + k) := by
        rw [List.take_succ_cons, List.map_cons, ← Nat.add_assoc]
        rfl
      rw [hindex, instancesFrom, List.getElem?_append_right, List.length_map, List.length_range,
        Nat.add_sub_cancel_left, hstart]
      rw [List.length_map, List.length_range]
      apply Nat.le_add_right

/-! ### Instances do not depend on links -/

/-- Objects that agree in their variables and sub-objects. -/
def SameInstances (objects objects' : List Object) : Prop :=
  objects'.length = objects.length
    ∧ ∀ id, (objectAt objects' id).varSize = (objectAt objects id).varSize
      ∧ (objectAt objects' id).subs = (objectAt objects id).subs

namespace SameInstances

variable {objects objects' : List Object} (h : SameInstances objects objects')

include h

theorem varTotal (depth : Nat) (id : ObjId) :
  varTotal objects' depth id = SpinHub.varTotal objects depth id
  := by
  induction depth generalizing id with
  | zero => apply (h.2 id).1
  | succ depth ih =>
    rw [SpinHub.varTotal, SpinHub.varTotal, (h.2 id).1, (h.2 id).2]
    simp only [ih]

theorem totalsKnown {totals : Totals} (hknown : TotalsKnown objects totals) :
  TotalsKnown objects' totals
  := by
  intro id size hlookup
  rw [h.1, h.varTotal]
  apply hknown id size hlookup

theorem instancesFrom (offset : Nat) (subs : List SubObject) :
  instancesFrom objects' offset subs = SpinHub.instancesFrom objects offset subs
  := by
  have hstep (sub : SubObject) : instanceStep objects' sub = instanceStep objects sub := by
    rw [instanceStep, instanceStep, h.1, h.varTotal]
  induction subs generalizing offset with
  | nil => rfl
  | cons sub subs ih => rw [SpinHub.instancesFrom, SpinHub.instancesFrom, hstep, ih]

theorem instances (id : ObjId) :
  instances objects' id = SpinHub.instances objects id
  := by
  rw [SpinHub.instances, SpinHub.instances, (h.2 id).1, (h.2 id).2, h.instancesFrom]

end SameInstances

end SpinHub
