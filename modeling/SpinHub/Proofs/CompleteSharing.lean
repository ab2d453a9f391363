import Mathlib
import SpinHub.Proofs.ForwardLinks
import SpinHub.Proofs.RootSurvives

/-!
# When all duplicates are shared

Comparisons see only the links made so far, and an object that has had its turn is not compared
again. So sharing finds the duplicates of an object if what stands for the objects inside it stands
behind it in the order, and so on below. A file that is included again moves to the end with the
files it includes, but not with those that they include, and duplicates may then be left over.
-/

namespace SpinHub

theorem Method.same_comm (a b : Method) :
  a.same b = b.same a
  := by
  rw [Method.same, Method.same, Bool.beq_comm, BEq.comm (a := a.localsSize), BEq.comm (a := a.code)]

theorem Object.sameMethods_comm (a b : Object) :
  a.sameMethods b = b.sameMethods a
  := by
  rw [sameMethods, sameMethods, BEq.comm, ← List.zip_swap b.methodTable, List.all_map]
  simp only [Function.comp_def, Prod.fst_swap, Prod.snd_swap, Method.same_comm]

namespace Build

/-- No two objects that were not replaced are the same. -/
def Unduplicated (build : Build) : Prop :=
  ∀ a < build.objects.length, ∀ b < build.objects.length, a ≠ b →
    (build.object a).replacement = none → (build.object b).replacement = none →
    ((same a b).run build).1 = false

/-- Every object stands in front of the objects inside it. -/
def IncludesForward (build : Build) : Prop :=
  ∀ id < build.objects.length, ∀ sub ∈ (build.object id).subs, build.Before id sub.target

/-- The candidate is not free, or it is not the same as what stands for the later object. -/
def Parted (build : Build) (latest candidate : ObjId) : Prop :=
  (build.object candidate).replacement = none →
    ¬ build.Alike candidate ((build.object latest).replacement.getD latest)

/-- An object stands in front of what stands for the objects inside it, and so do these. -/
inductive InOrder (build : Build) : ObjId → Prop where
  | intro {id : ObjId}
    (before : ∀ sub ∈ (build.object id).subs, build.Before id (build.survivor sub.target))
    (inside : ∀ sub ∈ (build.object id).subs, build.InOrder (build.survivor sub.target)) :
    build.InOrder id

/-- What stands in the slots of an object stands behind it and is in order as well. -/
theorem InOrder.slots {build : Build} {id : ObjId} (h : build.InOrder id) {entry : Entry}
    (hentry : entry ∈ build.slots id) :
  build.Before id entry.1 ∧ build.InOrder entry.1
  := by
  obtain ⟨sub, hsub, htarget⟩ := sub_of_mem_slots hentry
  obtain ⟨hbefore, hinside⟩ := h
  rw [htarget]
  exact ⟨hbefore sub hsub, hinside sub hsub⟩

/-! ### Settled objects -/

/-- Objects that lead to a survivor which is in order and has had its turn are linked to it. -/
def Settled (final build : Build) (pending : List ObjId) : Prop :=
  ∀ id, final.InOrder (final.survivor id) → final.survivor id ∉ pending →
    build.survivor id = final.survivor id

/-- Where what stands for the instances of an object is the same, so are its slots. -/
theorem slots_eq_of_survivors {b b' : Build} (hsame : SameInstances b.objects b'.objects)
    {id : ObjId} (h : ∀ entry ∈ instances b.objects id, b'.survivor entry.1 = b.survivor entry.1) :
  b'.slots id = b.slots id
  := by
  rw [slots, hsame.instances, slots]
  apply List.map_congr_left
  intro entry hentry
  rw [h entry hentry]

/-- Objects that will be alike are so already if what will stand in their slots does. -/
theorem Alike.of_settled {final build : Build} (hagree : final.Agree Object.unlinked build)
    {x y : ObjId} (hsettled : ∀ id, final.survivor id ∈ (final.slots y).map Prod.fst →
      build.survivor id = final.survivor id) (h : final.Alike x y) :
  build.Alike x y
  := by
  have hslots (id : ObjId) (hid : final.slots id = final.slots y) :
      build.slots id = final.slots id := by
    apply slots_eq_of_survivors hagree.sameInstances
    intro entry hentry
    apply hsettled entry.1
    rw [← hid, Build.slots, List.map_map]
    exact List.mem_map.mpr ⟨entry, hentry, rfl⟩
  have hmethods (id : ObjId) : (build.object id).methods = (final.object id).methods :=
    (congrArg Object.methods (hagree.objects id) :)
  have hdat (id : ObjId) : (build.object id).datBytes = (final.object id).datBytes :=
    (congrArg Object.datBytes (hagree.objects id) :)
  constructor
  · simp only [Object.sameMethods, Object.methodTable, hmethods]
    exact h.methods
  · rw [hslots x h.slots, hslots y rfl, h.slots]
  · rw [hdat, hdat, h.dat]

theorem Alike.symm {build : Build} {a b : ObjId} (h : build.Alike a b) :
  build.Alike b a
  := by
  refine ⟨?_, h.slots.symm, h.dat.symm⟩
  rw [Object.sameMethods_comm]
  exact h.methods

namespace Linking

variable {laid build final : Build} {pending : List ObjId}

/-- What stands for an object at first and in the end stands for it in between. -/
theorem survivor_between {middle : Build} {pending' : List ObjId} (h : Linking laid build pending)
    (hmiddle : Linking laid middle pending') (hfinal : Linking laid final [])
    (hgrown : build.Extends middle) (hgrown' : middle.Extends final) {id : ObjId}
    (hsame : build.survivor id = final.survivor id) :
  middle.survivor id = final.survivor id
  := by
  cases hlink : (build.object id).replacement with
  | some target =>
    have hmiddleLink := hgrown.links id target hlink
    rw [hmiddle.survivor, hfinal.survivor, hmiddleLink, hgrown'.links id target hmiddleLink]
  | none =>
    rw [h.survivor, hlink, Option.getD_none, hfinal.survivor] at hsame
    have hnone : (final.object id).replacement = none := by
      cases hlast : (final.object id).replacement with
      | none => rfl
      | some target =>
        rw [hlast, Option.getD_some] at hsame
        obtain ⟨_, _, hfree⟩ := hfinal.target id target hlast
        rw [← hsame, hlast] at hfree
        cases hfree
    rw [hmiddle.survivor, hfinal.survivor, hnone, hgrown'.replacement_eq_none hnone]

section Turn

variable {survivor : ObjId} (hlaid : laid.Laid)
  (h : Linking laid build pending) (hfinal : Linking laid final [])
  (hsurvivor : survivor < laid.objects.length) (hdone : survivor ∉ pending)
  (hlast : (build.object survivor).replacement = none)
  (hsettled : ∀ id, final.survivor id ∈ (final.slots survivor).map Prod.fst →
    build.survivor id = final.survivor id)

include hlaid h hfinal hsurvivor hdone hlast hsettled

/-- In the turn of an object whose slots are settled, all objects in front that will be alike to it
are linked. -/
theorem turn_links {candidates : List ObjId} (hcandidates : ∀ id ∈ candidates,
      id ∈ pending ∧ id < laid.objects.length ∧ laid.Before id survivor)
    (hlater : ((candidates.forM (replaceIfSame survivor)).run build).2.Extends final) {id : ObjId}
    (hid : id ∈ candidates) (halike : final.Alike id survivor) :
  (((candidates.forM (replaceIfSame survivor)).run build).2.object id).replacement ≠ none
  := by
  induction candidates generalizing build with
  | nil => cases hid
  | cons candidate candidates ih =>
    obtain ⟨hcandidate, hless, hbefore⟩ := hcandidates candidate List.mem_cons_self
    obtain ⟨hone, hlast', hlinks⟩ := h.compare hlaid hsurvivor hdone hlast hcandidate hless hbefore
    have hfirst := replaceIfSame_extends survivor candidate build
    have hrest := forM_replaceIfSame_extends survivor candidates
      ((replaceIfSame survivor candidate).run build).2
    rcases List.mem_cons.mp hid with rfl | hmem
    · have hagree := hfinal.agree.symm.trans h.agree
      intro hnone
      apply hlinks (halike.of_settled hagree hsettled)
      apply hrest.replacement_eq_none hnone
    · apply ih hone hlast' _ _ hlater hmem
      · intro other hother
        apply h.survivor_between hone hfinal hfirst (hrest.trans hlater) (hsettled other hother)
      · intro other hother
        apply hcandidates other (List.mem_cons_of_mem candidate hother)

end Turn

theorem mem_earlier {latest : ObjId} {earlier : List ObjId}
    (hfront : (latest :: earlier).reverse <+: laid.order) (hfresh : latest ∉ earlier) {id : ObjId}
    (hbefore : laid.Before id latest) :
  id ∈ earlier
  := by
  by_contra hid
  obtain ⟨back, hback⟩ := hfront
  rw [← List.mem_reverse] at hfresh hid
  rw [Before, ← hback, List.reverse_cons, List.append_assoc, List.idxOf_append_of_notMem hid,
    List.idxOf_append_of_notMem hfresh, List.singleton_append, List.idxOf_cons_self] at hbefore
  omega

/-- A turn settles the objects that lead to the one whose turn it is. -/
theorem settled_turn {latest : ObjId} {earlier : List ObjId} {after : Build}
    (hfront : (latest :: earlier).reverse <+: laid.order) (hfresh : latest ∉ earlier)
    (h : Linking laid build (latest :: earlier)) (hafter : Linking laid after earlier)
    (hfinal : Linking laid final []) (hgrown : build.Extends after) (hlater : after.Extends final)
    (hsettled : Settled final build (latest :: earlier))
    (hlinks : final.InOrder latest → (final.object latest).replacement = none →
      ∀ id ∈ earlier, final.Alike id latest → (after.object id).replacement ≠ none) :
  Settled final after earlier
  := by
  intro id horder hid
  by_cases hlatest : final.survivor id = latest
  · rw [hlatest] at horder
    rw [hfinal.survivor] at hlatest
    cases hlink : (final.object id).replacement with
    | none =>
      rw [hfinal.survivor, hafter.survivor, hlink, hlater.replacement_eq_none hlink]
    | some target =>
      rw [hlink, Option.getD_some] at hlatest
      subst hlatest
      obtain ⟨_, _, hnone⟩ := hfinal.target id target hlink
      have hmem := mem_earlier hfront hfresh (hfinal.forward id target hlink)
      have hlinked := hlinks horder hnone id hmem (hfinal.alike id target hlink)
      obtain ⟨other, hother⟩ := Option.ne_none_iff_exists'.mp hlinked
      rw [hfinal.survivor, hafter.survivor, hother, hlater.links id other hother]
  · apply h.survivor_between hafter hfinal hgrown hlater
    apply hsettled id horder
    rw [List.mem_cons, not_or]
    exact ⟨hlatest, hid⟩

/-- Of two objects that are alike in the end the first is linked, if the last is in order. -/
theorem shareFrom_complete (hlaid : laid.Laid) (hfront : pending.reverse <+: laid.order)
    (h : Linking laid build pending)
    (hfinal : final = ((SpinHub.Build.shareFrom pending).run build).2)
    (hsettled : Settled final build pending) {a b : ObjId} (hb : b ∈ pending)
    (hbefore : laid.Before a b) (horder : final.InOrder b)
    (hfree : (final.object b).replacement = none) (halike : final.Alike a b) :
  (final.object a).replacement ≠ none
  := by
  induction pending generalizing build with
  | nil => cases hb
  | cons latest earlier ih =>
    obtain ⟨hweak, hsurvivor, hdone, hlast, hcandidates⟩ := h.survivor_of_turn hlaid hfront
    have hfresh := (List.nodup_cons.mp (hlaid.nodup_of_front hfront)).1
    have hend : Linking laid final [] := by
      rw [hfinal]
      apply h.shareFrom hlaid hfront
    rw [run_shareFrom_cons h.toSharing] at hfinal
    have hturn := hweak.turn hlaid hsurvivor hdone hlast hcandidates
    have hgrown := forM_replaceIfSame_extends (build.survivor latest) earlier build
    have hlinks := hweak.turn_links hlaid hend hsurvivor hdone hlast
    set after := ((earlier.forM (replaceIfSame (build.survivor latest))).run build).2
    have hlater : after.Extends final := by
      rw [hfinal]
      apply shareFrom_extends
    have hlinked (horder : final.InOrder latest)
        (hnone : (final.object latest).replacement = none) :
        ∀ id ∈ earlier, final.Alike id latest → (after.object id).replacement ≠ none := by
      have hself : build.survivor latest = latest := by
        rw [h.survivor, (hgrown.trans hlater).replacement_eq_none hnone, Option.getD_none]
      intro id hid hsame
      rw [← hself] at hsame
      apply hlinks _ hcandidates hlater hid hsame
      -- what stands in the slots has had its turn, so it is settled
      intro other hother
      rw [hself] at hother hcandidates
      obtain ⟨entry, hentry, hother⟩ := List.mem_map.mp hother
      obtain ⟨hplace, hinside⟩ := horder.slots hentry
      rw [Before, hend.agree.order] at hplace
      rw [hother] at hplace hinside
      apply hsettled other hinside
      intro hmem
      rcases List.mem_cons.mp hmem with heq | hmem
      · rw [heq] at hplace
        exact lt_irrefl _ hplace
      · exact lt_asymm hplace (hcandidates _ hmem).2.2
    rcases List.mem_cons.mp hb with rfl | hmem
    · intro hnone
      apply hlinked horder hfree a (mem_earlier hfront hfresh hbefore) halike
      apply hlater.replacement_eq_none hnone
    · have hsettled' := settled_turn hfront hfresh h hturn hend hgrown hlater hsettled hlinked
      rw [List.reverse_cons] at hfront
      apply ih ((List.prefix_append _ _).trans hfront) hturn hfinal hsettled' hmem

end Linking

/-! ### Runs that add no link -/

section Runs

variable {build b : Build} {rank : ObjId → Nat} (hranked : Ranked build.objects [] rank)
  (hknows : build.Knows b)

include hranked hknows

/-- A turn links one of the candidates, or none of them is free and alike to the survivor. -/
theorem turn_cases {survivor : ObjId} (hsurvivor : survivor < build.objects.length)
    {candidates : List ObjId} (hcandidates : ∀ id ∈ candidates, id < build.objects.length) :
  build.Knows ((candidates.forM (replaceIfSame survivor)).run b).2
      ∧ (∀ id ∈ candidates, (build.object id).replacement = none → ¬ build.Alike id survivor)
    ∨ ∃ id ∈ candidates, (build.object id).replacement = none ∧ build.Alike id survivor
      ∧ (((candidates.forM (replaceIfSame survivor)).run b).2.object id).replacement ≠ none
  := by
  induction candidates generalizing b with
  | nil => exact .inl ⟨hknows, nofun⟩
  | cons candidate candidates ih =>
    have hid := hcandidates candidate List.mem_cons_self
    obtain ⟨totals, rfl, hknown⟩ := hknows
    have hrun : (((candidate :: candidates).forM (replaceIfSame survivor)).run
          { build with totals }).2
        = ((candidates.forM (replaceIfSame survivor)).run
          ((replaceIfSame survivor candidate).run { build with totals }).2).2 := rfl
    have hafter := forM_replaceIfSame_extends survivor candidates
      ((replaceIfSame survivor candidate).run { build with totals }).2
    rw [hrun]
    obtain ⟨totals', hknown', ⟨hfirst, hdiffer⟩ | ⟨hfirst, hfree, halike⟩⟩ :=
      @replaceIfSame_cases { build with totals } _ _ _ hranked hknown hid hsurvivor
    · have hsame : build.Knows ((replaceIfSame survivor candidate).run { build with totals }).2 :=
        ⟨totals', hfirst, hknown'⟩
      rcases ih hsame fun id hmem => hcandidates id (List.mem_cons_of_mem candidate hmem) with
        ⟨hrest, hparted⟩ | ⟨id, hmem, hlinked⟩
      · refine .inl ⟨hrest, List.forall_mem_cons.mpr ⟨?_, hparted⟩⟩
        rintro hfree ⟨hmethods, hslots, hdat⟩
        exact hdiffer hfree ⟨hmethods, hslots, hdat⟩
      · exact .inr ⟨id, List.mem_cons_of_mem candidate hmem, hlinked⟩
    · obtain ⟨hmethods, hslots, hdat⟩ := halike
      refine .inr ⟨candidate, List.mem_cons_self, hfree, ⟨hmethods, hslots, hdat⟩, ?_⟩
      intro hnone
      have hlinked := hafter.replacement_eq_none hnone
      rw [hfirst, replacement_linkTo_self (by exact hid)] at hlinked
      cases hlinked

/-- Turns link a free object, or no two objects are left that they would link. -/
theorem shareFrom_cases (htargets : ∀ id target, (build.object id).replacement = some target →
      target < build.objects.length) {pending : List ObjId}
    (hpending : ∀ id ∈ pending, id < build.objects.length) :
  build.Knows ((shareFrom pending).run b).2 ∧ pending.Pairwise build.Parted
    ∨ ¬ pending.Pairwise build.Parted ∧ ∃ id, (build.object id).replacement = none
      ∧ (((shareFrom pending).run b).2.object id).replacement ≠ none
  := by
  induction pending generalizing b with
  | nil => exact .inl ⟨hknows, .nil⟩
  | cons latest earlier ih =>
    obtain ⟨hlatest, hearlier⟩ := List.forall_mem_cons.mp hpending
    have hsurvivor : (build.object latest).replacement.getD latest < build.objects.length := by
      cases hlink : (build.object latest).replacement with
      | none => exact hlatest
      | some target => exact htargets latest target hlink
    obtain ⟨totals, rfl, hknown⟩ := hknows
    have hrun : ((shareFrom (latest :: earlier)).run { build with totals }).2
        = ((shareFrom earlier).run ((earlier.forM (replaceIfSame
          ((build.object latest).replacement.getD latest))).run { build with totals }).2).2 := rfl
    rw [hrun, List.pairwise_cons]
    rcases turn_cases hranked ⟨totals, rfl, hknown⟩ hsurvivor hearlier with
      ⟨hturn, hparted⟩ | ⟨id, hmem, hfree, halike, hlinked⟩
    · rcases ih hturn hearlier with ⟨hrest, hpairs⟩ | ⟨hpairs, hlinked⟩
      · exact .inl ⟨hrest, hparted, hpairs⟩
      · exact .inr ⟨fun h => hpairs h.2, hlinked⟩
    · refine .inr ⟨fun h => h.1 id hmem hfree halike, id, hfree, ?_⟩
      intro hnone
      exact hlinked ((shareFrom_extends earlier _).replacement_eq_none hnone)

end Runs

/-- The pairs of the objects in the order, last first. -/
theorem pairwise_reverse_order {build : Build} (hnodup : build.order.Nodup)
    {R : ObjId → ObjId → Prop} :
  build.order.reverse.Pairwise R
    ↔ ∀ a ∈ build.order, ∀ b ∈ build.order, build.Before a b → R b a
  := by
  rw [List.pairwise_reverse, List.pairwise_iff_getElem]
  constructor
  · intro h a ha b hb hbefore
    have hpair := h _ _ (List.idxOf_lt_length_of_mem ha) (List.idxOf_lt_length_of_mem hb) hbefore
    rwa [List.getElem_idxOf, List.getElem_idxOf] at hpair
  · intro h i j hi hj hij
    apply h _ (List.getElem_mem hi) _ (List.getElem_mem hj)
    rwa [Before, hnodup.idxOf_getElem, hnodup.idxOf_getElem]

theorem run_shareDuplicates (build : Build) :
  (shareDuplicates.run build).2 = ((shareFrom build.order.reverse).run build).2
  := rfl

namespace Linking

variable {laid build : Build}

/-- An object in front of another one stands in front of what stands for it. -/
theorem before_survivor (h : Linking laid build []) {a b : ObjId} (hbefore : build.Before a b) :
  build.Before a (build.survivor b)
  := by
  rcases h.survivor_latest b with heq | hlater
  · rwa [← heq]
  · exact lt_trans hbefore hlater

variable (hlaid : laid.Laid)

include hlaid

/-- No two free objects are the same exactly if no turn would link an object. -/
theorem unduplicated_iff (h : Linking laid build []) :
  build.Unduplicated ↔ build.order.reverse.Pairwise build.Parted
  := by
  rw [pairwise_reverse_order (h.nodup_order hlaid)]
  simp only [h.mem_order hlaid]
  constructor
  · intro hapart a ha b hb hbefore hfree halike
    rw [← h.survivor] at halike
    obtain ⟨hless, hnone⟩ := h.survivor_free hb
    have hplace := h.before_survivor hbefore
    have hne : a ≠ build.survivor b := by
      intro heq
      rw [← heq] at hplace
      exact lt_irrefl _ hplace
    have hdiffer := hapart a ha _ hless hne hfree hnone
    rw [(h.same_iff hlaid ha hless).mpr halike] at hdiffer
    cases hdiffer
  · intro hparted a ha b hb hne hfree hfree'
    have hpair {a b : ObjId} (ha : a < build.objects.length) (hb : b < build.objects.length)
        (hbefore : build.Before a b) (hfree : (build.object a).replacement = none)
        (hfree' : (build.object b).replacement = none) : ¬ build.Alike a b := by
      have hparted' := hparted a ha b hb hbefore hfree
      rwa [hfree', Option.getD_none] at hparted'
    rw [← Bool.not_eq_true, h.same_iff hlaid ha hb]
    rcases lt_trichotomy (build.order.idxOf a) (build.order.idxOf b) with hlt | heq | hgt
    · exact hpair ha hb hlt hfree hfree'
    · rw [List.idxOf_inj ((h.mem_order hlaid).mpr ha)] at heq
      exact absurd heq hne
    · intro halike
      exact hpair hb ha hgt hfree' hfree halike.symm

/-- A second run adds no link exactly if no turn would link an object. -/
theorem links_kept_iff (h : Linking laid build []) :
  (∀ id, ((shareDuplicates.run build).2.object id).replacement = (build.object id).replacement)
    ↔ build.order.reverse.Pairwise build.Parted
  := by
  obtain ⟨rank, hranked⟩ := hlaid.ranked
  have hpending : ∀ id ∈ build.order.reverse, id < build.objects.length := by
    intro id hid
    rwa [List.mem_reverse, h.mem_order hlaid] at hid
  rw [run_shareDuplicates]
  rcases shareFrom_cases (h.agree.ranked hranked) ⟨build.totals, rfl, h.totals⟩
    (fun id target hlink => (h.target id target hlink).1) hpending with
    ⟨⟨totals, hrun, _⟩, hparted⟩ | ⟨hparted, id, hfree, hlinked⟩
  · refine iff_of_true ?_ hparted
    intro id
    rw [hrun]
    rfl
  · refine iff_of_false ?_ hparted
    intro hkept
    apply hlinked
    rw [← hfree]
    exact hkept id

/-- Where objects stand in front of those inside them, they stand in front of what stands for
these. -/
theorem inOrder (h : Linking laid build []) (hforward : laid.IncludesForward) {id : ObjId}
    (hid : id < build.objects.length) :
  build.InOrder id
  := by
  obtain ⟨rank, hranked⟩ := hlaid.ranked
  have hranked' := h.agree.ranked hranked
  have hsubs (id : ObjId) : (build.object id).subs = (laid.object id).subs :=
    (congrArg Object.subs (h.agree.objects id) :)
  -- the objects behind are in order first
  induction hplace : build.order.length - build.order.idxOf id using Nat.strong_induction_on
    generalizing id with
  | _ places ih =>
    have hbehind : ∀ sub ∈ (build.object id).subs,
        build.Before id (build.survivor sub.target) := by
      intro sub hsub
      apply h.before_survivor
      rw [hsubs] at hsub
      rw [h.agree.length] at hid
      rw [Before, h.agree.order]
      apply hforward id hid sub hsub
    refine .intro hbehind ?_
    intro sub hsub
    have hless := (h.survivor_free (hranked'.target hid hsub).1).1
    apply ih _ _ hless rfl
    have hbefore := hbehind sub hsub
    have hend := List.idxOf_lt_length_of_mem ((h.mem_order hlaid).mpr hless)
    rw [Before] at hbefore
    omega

end Linking

/-- Sharing links all objects in front of an object in order that are alike to it. -/
theorem shareDuplicates_complete {laid : Build} (hlaid : laid.Laid) {a b : ObjId}
    (hb : b < laid.objects.length) (hbefore : laid.Before a b)
    (horder : (shareDuplicates.run laid).2.InOrder b)
    (hfree : ((shareDuplicates.run laid).2.object b).replacement = none)
    (halike : (shareDuplicates.run laid).2.Alike a b) :
  ((shareDuplicates.run laid).2.object a).replacement ≠ none
  := by
  have hwaiting : Linking laid laid laid.order.reverse := .of_free (.of_laid hlaid _) hlaid.unlinked
  have hend := shareDuplicates_linking hlaid (.of_laid hlaid []) hlaid.unlinked
  have hsettled : Settled (shareDuplicates.run laid).2 laid laid.order.reverse := by
    intro id _ hid
    rw [List.mem_reverse, hlaid.order.mem_iff, List.mem_range, ← hend.agree.length,
      hend.survivor] at hid
    rw [hwaiting.survivor, hlaid.unlinked, hend.survivor]
    cases hlink : ((shareDuplicates.run laid).2.object id).replacement with
    | none => rfl
    | some target =>
      rw [hlink] at hid
      exact absurd (hend.target id target hlink).1 hid
  apply hwaiting.shareFrom_complete hlaid _ (run_shareDuplicates laid) hsettled _ hbefore horder
    hfree halike
  · rw [List.reverse_reverse]
  · rwa [List.mem_reverse, hlaid.order.mem_iff, List.mem_range]

end Build

/-- After sharing, no two objects that were not replaced are the same exactly if sharing once more
adds no link. An object that is in order is not the same as one in front of it that was not
replaced. So no two are the same if all objects stand in front of those inside them. -/
theorem Program.shares_objects_in_order {program : Program} {config : Config}
    {registered laid shared : Build} (hregister : program.register = .ok registered)
    (hbuild : Yields (Step.build config) registered () laid)
    (hshared : shared = (Build.shareDuplicates.run laid).2) :
  (shared.Unduplicated ↔ ∀ id,
      ((Build.shareDuplicates.run shared).2.object id).replacement = (shared.object id).replacement)
    ∧ (∀ a < shared.objects.length, ∀ b < shared.objects.length, shared.Before a b →
      (shared.object a).replacement = none → (shared.object b).replacement = none →
      shared.InOrder b → ((Build.same a b).run shared).1 = false)
    ∧ (laid.IncludesForward → shared.Unduplicated)
  := by
  have hlaid := Step.build_laid (register_spec hregister) hbuild
  have h : laid.Linking shared [] := by
    rw [hshared]
    apply Build.shareDuplicates_linking hlaid (.of_laid hlaid []) hlaid.unlinked
  have hcomplete : ∀ a < shared.objects.length, ∀ b < shared.objects.length, shared.Before a b →
      (shared.object a).replacement = none → (shared.object b).replacement = none →
      shared.InOrder b → ¬ shared.Alike a b := by
    intro a _ b hb hbefore hfree hfree' horder halike
    rw [Build.Before, h.agree.order] at hbefore
    rw [h.agree.length] at hb
    subst hshared
    exact Build.shareDuplicates_complete hlaid hb hbefore horder hfree' halike hfree
  refine ⟨?_, ?_, ?_⟩
  · rw [h.unduplicated_iff hlaid, h.links_kept_iff hlaid]
  · intro a ha b hb hbefore hfree hfree' horder
    rw [← Bool.not_eq_true, h.same_iff hlaid ha hb]
    exact hcomplete a ha b hb hbefore hfree hfree' horder
  · intro hforward
    rw [h.unduplicated_iff hlaid, Build.pairwise_reverse_order (h.nodup_order hlaid)]
    simp only [h.mem_order hlaid]
    intro a ha b hb hbefore hfree
    rw [← h.survivor]
    obtain ⟨hless, hnone⟩ := h.survivor_free hb
    exact hcomplete a ha _ hless (h.before_survivor hbefore) hfree hnone
      (h.inOrder hlaid hforward hless)

/-- In the paired program the objects inside have their turns first, and all duplicates are
found. -/
theorem Program.shares_objects_in_order_paired :
  ∃ registered laid, pairedProgram.register = .ok registered
    ∧ Yields (Step.build {}) registered () laid ∧ laid.IncludesForward
    ∧ ((Build.shareDuplicates.run laid).2.object 1).replacement = some 3
    ∧ (Build.shareDuplicates.run laid).2.Unduplicated
    ∧ ∀ id, ((Build.shareDuplicates.run (Build.shareDuplicates.run laid).2).2.object id).replacement
        = ((Build.shareDuplicates.run laid).2.object id).replacement
  := by
  obtain ⟨registered, hregister, ⟨⟩, laid, hbuild, hforward, hpair⟩ :
      ∃ registered, pairedProgram.register = .ok registered
        ∧ ∃ u laid, Yields (Step.build {}) registered u laid
        ∧ (∀ id < laid.objects.length, ∀ sub ∈ (laid.object id).subs,
            laid.order.idxOf id < laid.order.idxOf sub.target)
        ∧ ((Build.shareDuplicates.run laid).2.object 1).replacement = some 3 := by
    decide +kernel
  obtain ⟨hagain, _, hall⟩ := Program.shares_objects_in_order hregister hbuild rfl
  have hapart := hall hforward
  exact ⟨registered, laid, hregister, hbuild, hforward, hpair, hapart, hagain.mp hapart⟩

/-- The pair of the paired program one level further down, in a file that is included twice. -/
def regroupedProgram : Program :=
  let run : MethodDecl := { name := { name := "run" }, isPublic := true }
  { root := "top"
    objects := [
      { file := "top", methods := [run]
        objs := [{ name := { name := "one" }, file := { name := "pair" } },
          { name := { name := "two" }, file := { name := "pair" } }] },
      { file := "pair", methods := [run]
        objs := [{ name := { name := "a" }, file := { name := "left" } },
          { name := { name := "b" }, file := { name := "right" } }] },
      { file := "left", methods := [run]
        objs := [{ name := { name := "below" }, file := { name := "low" } }] },
      { file := "right", methods := [run]
        objs := [{ name := { name := "below" }, file := { name := "deep" } }] },
      { file := "low", methods := [run] },
      { file := "deep", methods := [run] }] }

/-- The second inclusion leaves the files below the pair in front of it. The pair is compared before
they are, and two objects that are the same are left over. -/
theorem Program.duplicates_left_in_regrouped :
  ∃ registered laid, regroupedProgram.register = .ok registered
    ∧ Yields (Step.build {}) registered () laid
    ∧ laid.order.map (fun id => (laid.object id).file)
      = ["top.spin", "low.spin", "deep.spin", "pair.spin", "left.spin", "right.spin"]
    ∧ ¬ (Build.shareDuplicates.run laid).2.Unduplicated
  := by
  obtain ⟨registered, hregister, ⟨⟩, laid, hbuild, horder, hleft, hright, hfree, hfree', hsame⟩ :
      ∃ registered, regroupedProgram.register = .ok registered
        ∧ ∃ u laid, Yields (Step.build {}) registered u laid
        ∧ laid.order.map (fun id => (laid.object id).file)
          = ["top.spin", "low.spin", "deep.spin", "pair.spin", "left.spin", "right.spin"]
        ∧ 2 < (Build.shareDuplicates.run laid).2.objects.length
        ∧ 4 < (Build.shareDuplicates.run laid).2.objects.length
        ∧ ((Build.shareDuplicates.run laid).2.object 2).replacement = none
        ∧ ((Build.shareDuplicates.run laid).2.object 4).replacement = none
        ∧ ((Build.same 2 4).run (Build.shareDuplicates.run laid).2).1 = true := by
    decide +kernel
  refine ⟨registered, laid, hregister, hbuild, horder, ?_⟩
  intro hapart
  have hdiffer := hapart 2 hleft 4 hright (by decide) hfree hfree'
  rw [hsame] at hdiffer
  cases hdiffer

end SpinHub
