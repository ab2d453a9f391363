import Mathlib
import SpinHub.Duplicates
import SpinHub.Proofs.ObjectLayout

/-!
# Shared objects

Objects that are the same are linked to one of them, while comparisons that see the links made so
far are still going on. A link goes to an object that has had its turn and is not linked itself,
and later links lead the slots of both ends the same way, so the two stay the same.
-/

namespace SpinHub

variable {α β : Type}

/-- An object without its address. -/
def Object.unplaced (object : Object) : Object := { object with address := 0 }

/-- An object without what takes its place. -/
def Object.unreplaced (object : Object) : Object := { object with replacement := none }

/-- An object without its address and without what takes its place. -/
def Object.unlinked (object : Object) : Object :=
  { object with address := 0, replacement := none }

namespace Build

/-! ### Survivors -/

/-- An object that was not replaced survives, however many links are followed. -/
theorem survivorWithin_of_none {objects : List Object} {id : ObjId}
    (h : (objectAt objects id).replacement = none) (steps : Nat) :
  survivorWithin objects steps id = id
  := by
  cases steps with
  | zero => rfl
  | succ steps => rw [survivorWithin, h]

/-- Where replacements are not replaced themselves, one step leads to the survivor. -/
theorem survivor_eq {build : Build} {id : ObjId}
    (h : ∀ target, (build.object id).replacement = some target →
      (build.object target).replacement = none) :
  build.survivor id = (build.object id).replacement.getD id
  := by
  cases hlink : (build.object id).replacement with
  | none => apply survivorWithin_of_none hlink
  | some target =>
    have hid : id < build.objects.length := by
      by_contra hid
      rw [object_of_le (Nat.le_of_not_lt hid)] at hlink
      cases hlink
    obtain ⟨steps, hsteps⟩ := Nat.exists_eq_add_of_lt hid
    rw [survivor, hsteps, survivorWithin]
    change (objectAt build.objects id).replacement = some target at hlink
    rw [hlink]
    apply survivorWithin_of_none (h target hlink)

/-- Survivors depend on the links alone. -/
theorem survivor_congr {b b' : Build} (hlength : b'.objects.length = b.objects.length)
    (hlinks : ∀ id, (b'.object id).replacement = (b.object id).replacement) (id : ObjId) :
  b'.survivor id = b.survivor id
  := by
  have hwithin (steps : Nat) (id : ObjId) :
      survivorWithin b'.objects steps id = survivorWithin b.objects steps id := by
    induction steps generalizing id with
    | zero => rfl
    | succ steps ih =>
      have hlink : (objectAt b'.objects id).replacement = (objectAt b.objects id).replacement :=
        hlinks id
      simp only [survivorWithin, hlink, ih]
  rw [survivor, survivor, hlength, hwithin]

theorem Agree.of_unplaced {b b' : Build} (h : b.Agree Object.unplaced b') :
  b.Agree Object.unlinked b'
  := h.comp fun object => { object with replacement := none }

/-- Links and addresses do not change the instances of sub-objects. -/
theorem Agree.sameInstances {b b' : Build} (h : b.Agree Object.unlinked b') :
  SameInstances b.objects b'.objects
  := by
  refine ⟨h.length, ?_⟩
  intro id
  exact ⟨(congrArg Object.varSize (h.objects id) :), (congrArg Object.subs (h.objects id) :)⟩

/-- Links and addresses do not change what includes what. -/
theorem Agree.ranked {b b' : Build} {rank : ObjId → Nat} (h : b.Agree Object.unlinked b')
    (hranked : Ranked b.objects [] rank) :
  Ranked b'.objects [] rank
  := by
  intro id hid hreading
  have hsubs : (objectAt b'.objects id).subs = (objectAt b.objects id).subs :=
    (h.sameInstances.2 id).2
  rw [hsubs, h.length]
  rw [h.length] at hid
  apply hranked id hid hreading

/-- Where survivors change by `step`, so do the slots. -/
theorem slots_of_survivor {b b' : Build} (hsame : SameInstances b.objects b'.objects)
    (step : ObjId → ObjId) (hstep : ∀ id, b'.survivor id = step (b.survivor id)) (id : ObjId) :
  b'.slots id = (b.slots id).map fun entry => (step entry.1, entry.2)
  := by
  rw [slots, slots, hsame.instances, List.map_map]
  simp only [Function.comp_def, hstep]

/-! ### Comparisons -/

/-- Two objects have the same method tables, the same slots and the same DAT sections. -/
structure Alike (build : Build) (a b : ObjId) : Prop where
  methods : (build.object a).sameMethods (build.object b)
  slots : build.slots a = build.slots b
  dat : (build.object a).datBytes = (build.object b).datBytes

/-- Objects that are alike stay so when slots that led to one object still lead to one. -/
theorem Alike.of_step {b b' : Build} (hagree : b.Agree Object.unlinked b')
    (step : ObjId → ObjId) (hstep : ∀ id, b'.survivor id = step (b.survivor id)) {x y : ObjId}
    (h : b.Alike x y) :
  b'.Alike x y
  := by
  have hmethods (id : ObjId) : (b'.object id).methods = (b.object id).methods :=
    (congrArg Object.methods (hagree.objects id) :)
  have hdat (id : ObjId) : (b'.object id).datBytes = (b.object id).datBytes :=
    (congrArg Object.datBytes (hagree.objects id) :)
  have hslots := slots_of_survivor hagree.sameInstances step hstep
  constructor
  · simp only [Object.sameMethods, Object.methodTable, hmethods]
    exact h.methods
  · rw [hslots, hslots, h.slots]
  · rw [hdat, hdat, h.dat]

/-- Comparing two objects finds out whether they are alike. -/
theorem same_computes {build : Build} {rank : ObjId → Nat}
    (hranked : Ranked build.objects [] rank) {a b : ObjId} (ha : a < build.objects.length)
    (hb : b < build.objects.length) :
  ∃ result, Computes build.Knows (same a b) result ∧ (result = true ↔ build.Alike a b)
  := by
  by_cases hmethods : (build.object a).sameMethods (build.object b)
  · use build.slots a == build.slots b
      && (build.object a).datBytes == (build.object b).datBytes
    constructor
    · apply Computes.get_bind
      rintro _ ⟨totals, rfl, _⟩
      dsimp only
      rw [if_pos (by exact hmethods)]
      apply Computes.bind (entries_computes hranked ha)
      apply Computes.bind (entries_computes hranked hb)
      apply Computes.pure
    · rw [Bool.and_eq_true, beq_iff_eq, beq_iff_eq]
      constructor
      · rintro ⟨hslots, hdat⟩
        exact ⟨hmethods, hslots, hdat⟩
      · intro h
        exact ⟨h.slots, h.dat⟩
  · use false
    constructor
    · apply Computes.get_bind
      rintro _ ⟨totals, rfl, _⟩
      dsimp only
      rw [if_neg (by exact hmethods)]
      apply Computes.pure
    · constructor
      · nofun
      · intro h
        exact absurd h.methods hmethods

/-- A computation changes nothing but what is remembered of totals. -/
def Remembers (action : StateM Build α) : Prop :=
  ∀ b, ∃ totals, (action.run b).2 = { b with totals }

theorem Remembers.pure (a : α) :
  Remembers (pure a)
  := fun b => ⟨b.totals, rfl⟩

/-- Computations that only remember totals do so in turn. -/
theorem Remembers.bind {x : StateM Build α} {f : α → StateM Build β} (hx : Remembers x)
    (hf : ∀ a, Remembers (f a)) :
  Remembers (x >>= f)
  := by
  intro b
  obtain ⟨totals, hfirst⟩ := hx b
  obtain ⟨totals', hrest⟩ := hf (x.run b).1 (x.run b).2
  use totals'
  have hrun : ((x >>= f).run b).2 = ((f (x.run b).1).run (x.run b).2).2 := rfl
  rw [hrun, hrest, hfirst]

theorem entries_remembers (id : ObjId) :
  Remembers (entries id)
  := by
  apply Remembers.bind (x := get) fun b => ⟨b.totals, rfl⟩
  intro build
  dsimp only
  generalize (build.object id).varSize = offset
  induction (build.object id).subs generalizing offset with
  | nil => apply Remembers.pure
  | cons sub rest ih =>
    have hrest (step : Nat) : Remembers (do
        let own := subEntries (build.survivor sub.target) step sub.count offset
        return own.1 ++ (← entriesFrom build own.2 rest)) :=
      Remembers.bind (ih _) fun _ => Remembers.pure _
    rw [entriesFrom]
    split_ifs
    · exact Remembers.bind (fun b => ⟨_, rfl⟩) hrest
    · exact Remembers.bind (Remembers.pure 0) hrest

/-- A comparison changes nothing but what is remembered of totals. -/
theorem same_remembers (a b : ObjId) :
  Remembers (same a b)
  := by
  apply Remembers.bind (x := get) fun b => ⟨b.totals, rfl⟩
  intro build
  dsimp only
  split_ifs
  · apply Remembers.bind (entries_remembers a)
    intro entriesA
    apply Remembers.bind (entries_remembers b)
    intro entriesB
    apply Remembers.pure
  · apply Remembers.pure

/-! ### Links -/

/-- The build in which the survivor takes the place of the candidate. -/
def linkTo (build : Build) (candidate survivor : ObjId) : Build :=
  build.modifyObject candidate fun object => { object with replacement := some survivor }

/-- The candidate of a link is replaced by the survivor. -/
theorem replacement_linkTo_self {build : Build} {candidate survivor : ObjId}
    (hid : candidate < build.objects.length) :
  ((build.linkTo candidate survivor).object candidate).replacement = some survivor
  := by
  rw [linkTo, object_modifyObject_self _ hid]

/-- A link changes no object but its candidate. -/
theorem object_linkTo_ne {build : Build} {candidate survivor id : ObjId} (hne : id ≠ candidate) :
  (build.linkTo candidate survivor).object id = build.object id
  := object_modifyObject_ne _ hne.symm

/-- A link changes nothing but what takes the place of an object. -/
theorem agree_linkTo (build : Build) (candidate survivor : ObjId) :
  build.Agree Object.unlinked (build.linkTo candidate survivor)
  := (KeepsAll.of_keeps (Keeps.modifyObject rfl)).toAgree

/-- Links were added to a build and totals remembered, and nothing else has changed. -/
structure Extends (b b' : Build) : Prop where
  rest : b' = { b with objects := b'.objects, totals := b'.totals }
  objects : b'.objects.map Object.unreplaced = b.objects.map Object.unreplaced
  links : ∀ id target, (b.object id).replacement = some target →
    (b'.object id).replacement = some target

namespace Extends

/-- Links and totals may be added in turn. -/
theorem trans {a b c : Build} (hab : a.Extends b) (hbc : b.Extends c) :
  a.Extends c
  := by
  refine ⟨?_, hbc.objects.trans hab.objects, fun id target h =>
    hbc.links id target (hab.links id target h)⟩
  rw [hbc.rest, hab.rest]

/-- Totals may be remembered. -/
theorem of_totals (b : Build) (totals : Totals) :
  b.Extends { b with totals }
  := ⟨rfl, rfl, fun _ _ h => h⟩

theorem refl (b : Build) :
  b.Extends b
  := of_totals b b.totals

/-- A free object may be linked. -/
theorem of_linkTo {b : Build} {candidate : ObjId} (hfree : (b.object candidate).replacement = none)
    (survivor : ObjId) :
  b.Extends (b.linkTo candidate survivor)
  := by
  constructor
  · rfl
  · rw [linkTo, modifyObject]
    apply map_modify_of_eq
    intro object
    rfl
  intro id target hlink
  rw [object_linkTo_ne]
  · exact hlink
  · rintro rfl
    rw [hfree] at hlink
    cases hlink

/-- What is not replaced in the end has never been. -/
theorem replacement_eq_none {b b' : Build} (h : b.Extends b') {id : ObjId}
    (hnone : (b'.object id).replacement = none) :
  (b.object id).replacement = none
  := by
  cases hlink : (b.object id).replacement with
  | none => rfl
  | some target =>
    rw [h.links id target hlink] at hnone
    cases hnone

end Extends

/-- One comparison links a free candidate if it finds the two to be the same. -/
theorem run_replaceIfSame {survivor candidate : ObjId} {b : Build} {result : Bool} {totals : Totals}
    (hsame : (same candidate survivor).run b = (result, { b with totals })) :
  ((replaceIfSame survivor candidate).run b).2
    = if (b.object candidate).replacement = none then
        if result then ({ b with totals } : Build).linkTo candidate survivor else { b with totals }
      else b
  := by
  cases hfree : (b.object candidate).replacement with
  | some target =>
    simp only [replaceIfSame, StateT.run_bind, StateT.run_get, pure_bind, hfree,
      Option.isNone_some, Bool.false_eq_true, if_false, reduceCtorEq]
    rfl
  | none =>
    simp only [replaceIfSame, StateT.run_bind, StateT.run_get, pure_bind, hfree,
      Option.isNone_none, if_true, hsame]
    cases result <;> rfl

/-- A comparison of two objects adds at most a link and totals. -/
theorem replaceIfSame_extends (survivor candidate : ObjId) (b : Build) :
  b.Extends ((replaceIfSame survivor candidate).run b).2
  := by
  obtain ⟨totals, hafter⟩ := same_remembers candidate survivor b
  rw [run_replaceIfSame (Prod.ext rfl hafter)]
  split_ifs with hfree
  · exact (Extends.of_totals b totals).trans (.of_linkTo (b := { b with totals }) hfree survivor)
  · apply Extends.of_totals
  · apply Extends.refl

/-- Comparisons with one survivor in turn add links and totals. -/
theorem forM_replaceIfSame_extends (survivor : ObjId) (candidates : List ObjId) (b : Build) :
  b.Extends ((candidates.forM (replaceIfSame survivor)).run b).2
  := by
  induction candidates generalizing b with
  | nil => apply Extends.refl
  | cons candidate candidates ih =>
    apply (replaceIfSame_extends survivor candidate b).trans
    apply ih

/-- All turns add links and totals. -/
theorem shareFrom_extends (pending : List ObjId) (b : Build) :
  b.Extends ((shareFrom pending).run b).2
  := by
  induction pending generalizing b with
  | nil => apply Extends.refl
  | cons latest earlier ih =>
    apply (forM_replaceIfSame_extends _ earlier b).trans
    apply ih

/-- An object stands in front of another one in the order of layout. -/
def Before (build : Build) (a b : ObjId) : Prop := build.order.idxOf a < build.order.idxOf b

/-- What stands in a front part of the order stands before what does not. -/
theorem before_of_front {build : Build} {front : List ObjId} (hfront : front <+: build.order)
    {a b : ObjId} (ha : a ∈ front) (hb : b ∉ front) :
  build.Before a b
  := by
  obtain ⟨back, hback⟩ := hfront
  rw [Before, ← hback, List.idxOf_append_of_mem ha, List.idxOf_append_of_notMem hb]
  apply Nat.lt_add_right
  apply List.idxOf_lt_length_of_mem ha

/-- What holds of a build with links, made from `laid`. The objects of `pending` have not had
their turn: nothing is linked to them yet. -/
structure Sharing (laid build : Build) (pending : List ObjId) : Prop where
  agree : laid.Agree Object.unlinked build
  totals : TotalsKnown build.objects build.totals
  target : ∀ id target, (build.object id).replacement = some target →
    target < build.objects.length ∧ target ∉ pending
      ∧ (build.object target).replacement = none
  alike : ∀ id target, (build.object id).replacement = some target → build.Alike id target

namespace Sharing

variable {laid build : Build} {pending : List ObjId}

/-- A survivor is one link away. -/
theorem survivor (h : Sharing laid build pending) (id : ObjId) :
  build.survivor id = (build.object id).replacement.getD id
  := by
  apply survivor_eq
  intro target htarget
  apply (h.target id target htarget).2.2

/-- What stands for an object is an object without a link. -/
theorem survivor_free (h : Sharing laid build pending) {id : ObjId}
    (hid : id < build.objects.length) :
  build.survivor id < build.objects.length
    ∧ (build.object (build.survivor id)).replacement = none
  := by
  rw [h.survivor]
  cases hlink : (build.object id).replacement with
  | none => exact ⟨hid, hlink⟩
  | some target =>
    obtain ⟨hless, _, hnone⟩ := h.target id target hlink
    exact ⟨hless, hnone⟩

/-- Before anything is linked. -/
theorem of_laid (h : laid.Laid) (pending : List ObjId) :
  Sharing laid laid pending
  := by
  have hnone {id target : ObjId} (hlink : (laid.object id).replacement = some target) : False := by
    rw [h.unlinked id] at hlink
    cases hlink
  refine ⟨.refl _, ?_, fun id target hlink => (hnone hlink).elim,
    fun id target hlink => (hnone hlink).elim⟩
  rw [h.totals]
  nofun

/-- What holds for more pending objects holds for fewer. -/
theorem weaken (h : Sharing laid build pending) {fewer : List ObjId} (hfewer : fewer ⊆ pending) :
  Sharing laid build fewer
  := by
  refine ⟨h.agree, h.totals, ?_, h.alike⟩
  intro id target hlink
  obtain ⟨htarget, hpending, hnone⟩ := h.target id target hlink
  exact ⟨htarget, fun hmem => hpending (hfewer hmem), hnone⟩

/-- Links leave every object in the order once. -/
theorem order (h : Sharing laid build pending) (hlaid : laid.Laid) :
  build.order.Perm (List.range build.objects.length)
  := by
  rw [h.agree.order, h.agree.length]
  exact hlaid.order

theorem mem_order (h : Sharing laid build pending) (hlaid : laid.Laid) {id : ObjId} :
  id ∈ build.order ↔ id < build.objects.length
  := by
  rw [(h.order hlaid).mem_iff, List.mem_range]

theorem nodup_order (h : Sharing laid build pending) (hlaid : laid.Laid) :
  build.order.Nodup
  := by
  rw [(h.order hlaid).nodup_iff]
  apply List.nodup_range

/-- Addresses and totals do not matter. -/
theorem of_agree {build' : Build} (h : Sharing laid build pending)
    (hagree : build.Agree Object.unplaced build')
    (htotals : TotalsKnown build'.objects build'.totals) :
  Sharing laid build' pending
  := by
  have hunlinked := hagree.of_unplaced
  have hlinks (id : ObjId) : (build'.object id).replacement = (build.object id).replacement :=
    (congrArg Object.replacement (hagree.objects id) :)
  refine ⟨h.agree.trans hunlinked, htotals, ?_, ?_⟩
  · intro id target hlink
    rw [hlinks] at hlink
    rw [hlinks, hagree.length]
    apply h.target id target hlink
  · intro id target hlink
    rw [hlinks] at hlink
    apply (h.alike id target hlink).of_step hunlinked (fun id => id)
      (survivor_congr hagree.length hlinks)

section Link

variable {candidate survivor : ObjId} (h : Sharing laid build pending)
  (hcandidate : candidate ∈ pending) (hid : candidate < build.objects.length)
  (hsurvivor : survivor < build.objects.length) (hdone : survivor ∉ pending)
  (hlast : (build.object survivor).replacement = none)

include h hcandidate hid hsurvivor hdone hlast

/-- Nothing is linked to the candidate, so the targets of the links before are as they were. -/
theorem target_linkTo {id target : ObjId}
    (hlink : ((build.linkTo candidate survivor).object id).replacement = some target) :
  target < build.objects.length ∧ target ∉ pending
    ∧ ((build.linkTo candidate survivor).object target).replacement = none
  := by
  have hfree {target : ObjId} (hmem : target ∉ pending) : target ≠ candidate := by
    rintro rfl
    exact hmem hcandidate
  by_cases hself : id = candidate
  · rw [hself, replacement_linkTo_self hid] at hlink
    cases hlink
    rw [object_linkTo_ne (hfree hdone)]
    exact ⟨hsurvivor, hdone, hlast⟩
  · rw [object_linkTo_ne hself] at hlink
    obtain ⟨hless, hpending, hnone⟩ := h.target id target hlink
    rw [object_linkTo_ne (hfree hpending)]
    exact ⟨hless, hpending, hnone⟩

/-- What led to the candidate leads to the survivor. -/
theorem survivor_linkTo (hfree : (build.object candidate).replacement = none) (id : ObjId) :
  (build.linkTo candidate survivor).survivor id
    = if build.survivor id = candidate then survivor else build.survivor id
  := by
  rw [h.survivor, survivor_eq fun target hlink =>
    (h.target_linkTo hcandidate hid hsurvivor hdone hlast hlink).2.2]
  by_cases hself : id = candidate
  · rw [hself, replacement_linkTo_self hid, hfree, Option.getD_none, if_pos rfl, Option.getD_some]
  · rw [object_linkTo_ne hself, if_neg]
    cases hlink : (build.object id).replacement with
    | none => exact hself
    | some target =>
      rintro rfl
      exact (h.target id _ hlink).2.1 hcandidate

/-- A link from an object that waits for its turn to one that has had it leads all slots the same
way, so what was alike stays alike. -/
theorem link (hfree : (build.object candidate).replacement = none)
    (halike : build.Alike candidate survivor) :
  Sharing laid (build.linkTo candidate survivor) pending
  := by
  have hagree := build.agree_linkTo candidate survivor
  have hstays {x y : ObjId} (hxy : build.Alike x y) :
      (build.linkTo candidate survivor).Alike x y :=
    hxy.of_step hagree (fun id => if id = candidate then survivor else id)
      (h.survivor_linkTo hcandidate hid hsurvivor hdone hlast hfree)
  refine ⟨h.agree.trans hagree, hagree.sameInstances.totalsKnown h.totals, ?_, ?_⟩
  · intro id target hlink
    rw [hagree.length]
    apply h.target_linkTo hcandidate hid hsurvivor hdone hlast hlink
  · intro id target hlink
    by_cases hself : id = candidate
    · rw [hself, replacement_linkTo_self hid] at hlink
      cases hlink
      rw [hself]
      apply hstays halike
    · rw [object_linkTo_ne hself] at hlink
      apply hstays (h.alike id target hlink)

end Link

end Sharing

/-- What holds of a build with links that go forward in the order. -/
structure Linking (laid build : Build) (pending : List ObjId) : Prop
    extends Sharing laid build pending where
  forward : ∀ id target, (build.object id).replacement = some target → laid.Before id target

/-- Before anything is linked. -/
theorem Linking.of_free {laid build : Build} {pending : List ObjId}
    (h : Sharing laid build pending) (hfree : ∀ id, (build.object id).replacement = none) :
  Linking laid build pending
  := by
  refine ⟨h, ?_⟩
  intro id target hlink
  rw [hfree] at hlink
  cases hlink

/-! ### Runs -/

/-- One comparison remembers totals, and it links the candidate exactly if the candidate is free and
the two are alike. -/
theorem replaceIfSame_cases {build : Build} {candidate survivor : ObjId} {rank : ObjId → Nat}
    (hranked : Ranked build.objects [] rank) (hknown : TotalsKnown build.objects build.totals)
    (hid : candidate < build.objects.length) (hsurvivor : survivor < build.objects.length) :
  ∃ totals, TotalsKnown build.objects totals
    ∧ (((replaceIfSame survivor candidate).run build).2 = { build with totals }
        ∧ ((build.object candidate).replacement = none → ¬ build.Alike candidate survivor)
      ∨ ((replaceIfSame survivor candidate).run build).2
          = ({ build with totals } : Build).linkTo candidate survivor
        ∧ (build.object candidate).replacement = none ∧ build.Alike candidate survivor)
  := by
  obtain ⟨result, hcomputes, halike⟩ := same_computes hranked hid hsurvivor
  obtain ⟨hresult, totals, hafter, hknown'⟩ := hcomputes build ⟨build.totals, rfl, hknown⟩
  rw [run_replaceIfSame (Prod.ext hresult hafter)]
  split_ifs with hfree htrue
  · exact ⟨totals, hknown', .inr ⟨rfl, hfree, halike.mp htrue⟩⟩
  · exact ⟨totals, hknown', .inl ⟨rfl, fun _ h => htrue (halike.mpr h)⟩⟩
  · exact ⟨build.totals, hknown, .inl ⟨rfl, fun h => absurd h hfree⟩⟩

section Turn

variable {laid build : Build} {pending : List ObjId} {survivor : ObjId} (hlaid : laid.Laid)
  (h : Linking laid build pending) (hsurvivor : survivor < laid.objects.length)
  (hdone : survivor ∉ pending) (hlast : (build.object survivor).replacement = none)

include hlaid h hsurvivor hdone hlast

/-- One comparison with an object in front of the survivor. -/
theorem Linking.compare {candidate : ObjId} (hcandidate : candidate ∈ pending)
    (hid : candidate < laid.objects.length) (hbefore : laid.Before candidate survivor) :
  Linking laid ((replaceIfSame survivor candidate).run build).2 pending
    ∧ (((replaceIfSame survivor candidate).run build).2.object survivor).replacement = none
    ∧ (build.Alike candidate survivor →
      (((replaceIfSame survivor candidate).run build).2.object candidate).replacement ≠ none)
  := by
  obtain ⟨rank, hranked⟩ := hlaid.ranked
  rw [← h.agree.length] at hid hsurvivor
  obtain ⟨totals, hknown, ⟨hrun, hdiffer⟩ | ⟨hrun, hfree, halike⟩⟩ :=
    replaceIfSame_cases (h.agree.ranked hranked) h.totals hid hsurvivor
  all_goals
    have hagree : build.Agree Object.unplaced { build with totals } := ⟨fun _ => rfl, rfl, rfl⟩
    have hsame : Sharing laid { build with totals } pending := h.of_agree hagree hknown
    rw [hrun]
  · refine ⟨⟨hsame, h.forward⟩, hlast, ?_⟩
    intro halike hnone
    exact hdiffer hnone halike
  · have halike' : ({ build with totals } : Build).Alike candidate survivor := by
      obtain ⟨hmethods, hslots, hdat⟩ := halike
      exact ⟨hmethods, hslots, hdat⟩
    have hself : ((({ build with totals } : Build).linkTo candidate survivor).object
        candidate).replacement = some survivor := replacement_linkTo_self hid
    refine ⟨⟨hsame.link hcandidate hid hsurvivor hdone hlast hfree halike', ?_⟩, ?_, ?_⟩
    · intro id target hlink
      by_cases hne : id = candidate
      · rw [hne, hself] at hlink
        cases hlink
        rw [hne]
        exact hbefore
      · rw [object_linkTo_ne hne] at hlink
        apply h.forward id target hlink
    · rw [object_linkTo_ne]
      · exact hlast
      · rintro rfl
        exact hdone hcandidate
    · intro _
      rw [hself]
      nofun

/-- The turn of a survivor adds links that go forward, one candidate after another. -/
theorem Linking.turn {candidates : List ObjId} (hcandidates : ∀ id ∈ candidates,
    id ∈ pending ∧ id < laid.objects.length ∧ laid.Before id survivor) :
  Linking laid ((candidates.forM (replaceIfSame survivor)).run build).2 pending
  := by
  induction candidates generalizing build with
  | nil => exact h
  | cons candidate candidates ih =>
    obtain ⟨hcandidate, hid, hbefore⟩ := hcandidates candidate List.mem_cons_self
    obtain ⟨hone, hlast', _⟩ := h.compare hlaid hsurvivor hdone hlast hcandidate hid hbefore
    apply ih hone hlast' fun id hmem => hcandidates id (List.mem_cons_of_mem candidate hmem)

end Turn

theorem Laid.nodup_of_front {laid : Build} (hlaid : laid.Laid) {pending : List ObjId}
    (hfront : pending.reverse <+: laid.order) :
  pending.Nodup
  := by
  rw [← List.nodup_reverse]
  apply hfront.sublist.nodup
  rw [hlaid.order.nodup_iff]
  apply List.nodup_range

/-- In the turn of an object, what stands for it is compared with the objects in front: it is not
linked, and it is not among them. -/
theorem Linking.survivor_of_turn {laid build : Build} {latest : ObjId} {earlier : List ObjId}
    (hlaid : laid.Laid) (hfront : (latest :: earlier).reverse <+: laid.order)
    (h : Linking laid build (latest :: earlier)) :
  Linking laid build earlier
    ∧ build.survivor latest < laid.objects.length ∧ build.survivor latest ∉ earlier
    ∧ (build.object (build.survivor latest)).replacement = none
    ∧ ∀ id ∈ earlier, id ∈ earlier ∧ id < laid.objects.length
      ∧ laid.Before id (build.survivor latest)
  := by
  have hmem {id : ObjId} (hid : id ∈ latest :: earlier) : id < laid.objects.length := by
    rw [← List.mem_range, ← hlaid.order.mem_iff]
    exact hfront.subset (List.mem_reverse.mpr hid)
  have hfresh := (List.nodup_cons.mp (hlaid.nodup_of_front hfront)).1
  have hweak := h.weaken (List.subset_cons_self latest earlier)
  have hsurvivor : build.survivor latest < laid.objects.length ∧ build.survivor latest ∉ earlier
      ∧ (build.object (build.survivor latest)).replacement = none := by
    rw [h.survivor]
    cases hlink : (build.object latest).replacement with
    | none => exact ⟨hmem List.mem_cons_self, hfresh, hlink⟩
    | some target =>
      obtain ⟨hless, hdone, hlast⟩ := hweak.target latest target hlink
      rw [h.agree.length] at hless
      exact ⟨hless, hdone, hlast⟩
  obtain ⟨hless, hdone, hlast⟩ := hsurvivor
  refine ⟨⟨hweak, h.forward⟩, hless, hdone, hlast, ?_⟩
  intro id hid
  refine ⟨hid, hmem (List.mem_cons_of_mem latest hid), ?_⟩
  rw [List.reverse_cons] at hfront
  apply before_of_front ((List.prefix_append _ _).trans hfront)
  · rwa [List.mem_reverse]
  · rwa [List.mem_reverse]

/-- After the turn of the last object come the turns of those in front. -/
theorem run_shareFrom_cons {laid build : Build} {latest : ObjId} {earlier pending : List ObjId}
    (h : Sharing laid build pending) :
  ((shareFrom (latest :: earlier)).run build).2
    = ((shareFrom earlier).run
        ((earlier.forM (replaceIfSame (build.survivor latest))).run build).2).2
  := by
  rw [h.survivor]
  rfl

/-- The turns of the objects of a front part of the order, last first. -/
theorem Linking.shareFrom {laid build : Build} {pending : List ObjId} (hlaid : laid.Laid)
    (hfront : pending.reverse <+: laid.order) (h : Linking laid build pending) :
  Linking laid ((shareFrom pending).run build).2 []
  := by
  induction pending generalizing build with
  | nil => exact h
  | cons latest earlier ih =>
    obtain ⟨hweak, hsurvivor, hdone, hlast, hcandidates⟩ := h.survivor_of_turn hlaid hfront
    rw [run_shareFrom_cons h.toSharing]
    rw [List.reverse_cons] at hfront
    apply ih ((List.prefix_append _ _).trans hfront)
    apply hweak.turn hlaid hsurvivor hdone hlast hcandidates

/-- After sharing, every link leads forward to an object that is not linked, and to one that is
alike. -/
theorem shareDuplicates_linking {laid start : Build} (hlaid : laid.Laid) (h : Sharing laid start [])
    (hfree : ∀ id, (start.object id).replacement = none) :
  Linking laid (shareDuplicates.run start).2 []
  := by
  have hwaiting : Sharing laid start start.order.reverse := by
    refine ⟨h.agree, h.totals, ?_, h.alike⟩
    intro id target hlink
    rw [hfree] at hlink
    cases hlink
  apply (Linking.of_free hwaiting hfree).shareFrom hlaid
  rw [List.reverse_reverse, h.agree.order]

/-- When all objects have had their turn, nothing is pending. -/
theorem shareDuplicates_sharing {laid : Build} (hlaid : laid.Laid) :
  Sharing laid (shareDuplicates.run laid).2 []
  := (shareDuplicates_linking hlaid (.of_laid hlaid []) hlaid.unlinked).toSharing

end Build

end SpinHub
