import Mathlib
import SpinHub.Compilation
import SpinHub.Proofs.SharedObjects

/-!
# Links lead forward

Sharing duplicates links an object to one that stands further back in the order and is not linked
itself, so what stands for an object is found in one step, and it is the last of the objects that
it stands for. The two ends of a link are still the same when all links are made.
-/

namespace SpinHub

/-- The objects of a program have all been compiled and nothing has taken the place of one.
Addresses, constants and totals may have been found out since. -/
def Program.CompilesTo (program : Program) (config : Config) (build : Build) : Prop :=
  ∃ registered laid, program.register = .ok registered
    ∧ Yields (Step.build config) registered () laid
    ∧ laid.Agree Object.unplaced build ∧ TotalsKnown build.objects build.totals

theorem Program.CompilesTo.of_build {program : Program} {config : Config} {registered laid : Build}
    (hregister : program.register = .ok registered)
    (hbuild : Yields (Step.build config) registered () laid) :
  program.CompilesTo config laid
  := by
  refine ⟨registered, laid, hregister, hbuild, .refl laid, ?_⟩
  rw [(Step.build_laid (Program.register_spec hregister) hbuild).totals]
  nofun

namespace Build

/-- What sharing makes of a build that has no links. Each link leads one step forward, to an object
that is the same, and what stands for objects is the last of them. Nothing but links and remembered
totals has changed. -/
structure LinksForward (start shared : Build) : Prop where
  forward : ∀ id target, (shared.object id).replacement = some target →
    shared.Before id target ∧ target ∈ shared.order ∧ (shared.object target).replacement = none
  step : ∀ id, shared.survivor id = (shared.object id).replacement.getD id
  idempotent : ∀ id, shared.survivor (shared.survivor id) = shared.survivor id
  same : ∀ id target, (shared.object id).replacement = some target →
    ((Build.same id target).run shared).1 = true
  latest : ∀ id other, shared.survivor other = shared.survivor id →
    other = shared.survivor id ∨ shared.Before other (shared.survivor id)
  objects : shared.objects.map Object.unreplaced = start.objects
  totals : TotalsKnown shared.objects shared.totals
  rest : shared = { start with objects := shared.objects, totals := shared.totals }

/-- Objects without links are as they are without what takes their place. -/
theorem map_unreplaced {build : Build} (hfree : ∀ id, (build.object id).replacement = none) :
  build.objects.map Object.unreplaced = build.objects
  := by
  apply List.ext_getElem?
  intro i
  rw [List.getElem?_map]
  cases hobject : build.objects[i]? with
  | none => rfl
  | some object =>
    have hnone := hfree i
    rw [Build.object, objectAt, hobject, Option.getD_some] at hnone
    rw [Option.map_some, Object.unreplaced, ← hnone]

namespace Linking

variable {laid build : Build}

/-- What stands for an object is the object itself or stands behind it. -/
theorem survivor_latest (h : Linking laid build []) (id : ObjId) :
  id = build.survivor id ∨ build.Before id (build.survivor id)
  := by
  rw [h.survivor]
  cases hlink : (build.object id).replacement with
  | none => exact .inl rfl
  | some target =>
    right
    rw [Before, h.agree.order]
    apply h.forward id target hlink

theorem survivor_idempotent {pending : List ObjId} (h : Linking laid build pending)
    (id : ObjId) :
  build.survivor (build.survivor id) = build.survivor id
  := by
  rw [h.survivor id]
  cases hlink : (build.object id).replacement with
  | none => rw [Option.getD_none, h.survivor, hlink, Option.getD_none]
  | some target =>
    rw [Option.getD_some, h.survivor, (h.target id target hlink).2.2, Option.getD_none]

/-- Two objects compare as the same exactly if they are alike. -/
theorem same_iff {pending : List ObjId} (hlaid : laid.Laid) (h : Linking laid build pending)
    {a b : ObjId} (ha : a < build.objects.length) (hb : b < build.objects.length) :
  ((Build.same a b).run build).1 = true ↔ build.Alike a b
  := by
  obtain ⟨rank, hranked⟩ := hlaid.ranked
  obtain ⟨result, hcomputes, halike⟩ := same_computes (h.agree.ranked hranked) ha hb
  rw [(hcomputes build ⟨build.totals, rfl, h.totals⟩).1, halike]

end Linking

end Build

/-- However duplicates lie in a compiled program, sharing them makes links that lead one step
forward. -/
theorem Program.links_lead_forward {program : Program} {config : Config} {build : Build}
    (h : program.CompilesTo config build) :
  build.LinksForward (Build.shareDuplicates.run build).2
  := by
  obtain ⟨registered, laid, hregister, hbuild, hagree, hknown⟩ := h
  have hlaid := Step.build_laid (register_spec hregister) hbuild
  have hfree (id : ObjId) : (build.object id).replacement = none := by
    rw [← hlaid.unlinked id]
    exact (congrArg Object.replacement (hagree.objects id) :)
  have hsharing : laid.Sharing build [] :=
    (Build.Sharing.of_laid hlaid []).of_agree hagree hknown
  have hlinking := Build.shareDuplicates_linking hlaid hsharing hfree
  have hgrown : build.Extends (Build.shareDuplicates.run build).2 := Build.shareFrom_extends _ build
  set shared := (Build.shareDuplicates.run build).2
  have hlength {id target : ObjId} (hlink : (shared.object id).replacement = some target) :
      id < shared.objects.length := by
    by_contra hid
    rw [Build.object_of_le (Nat.le_of_not_lt hid)] at hlink
    cases hlink
  constructor
  · intro id target hlink
    obtain ⟨hless, _, hnone⟩ := hlinking.target id target hlink
    refine ⟨?_, ?_, hnone⟩
    · rw [Build.Before, hlinking.agree.order]
      apply hlinking.forward id target hlink
    · rwa [hlinking.mem_order hlaid]
  · apply hlinking.survivor
  · apply hlinking.survivor_idempotent
  · intro id target hlink
    rw [hlinking.same_iff hlaid (hlength hlink) (hlinking.target id target hlink).1]
    apply hlinking.alike id target hlink
  · intro id other hsame
    rw [← hsame]
    apply hlinking.survivor_latest
  · rw [hgrown.objects, Build.map_unreplaced hfree]
  · exact hlinking.totals
  · exact hgrown.rest

/-- A program with two objects that are the same because those inside them are. -/
def pairedProgram : Program :=
  let run : MethodDecl := { name := { name := "run" }, isPublic := true }
  { root := "top"
    objects := [
      { file := "top", methods := [run]
        objs := [{ name := { name := "a" }, file := { name := "left" } },
          { name := { name := "b" }, file := { name := "right" } }] },
      { file := "left", methods := [run]
        objs := [{ name := { name := "below" }, file := { name := "low" } }] },
      { file := "right", methods := [run]
        objs := [{ name := { name := "below" }, file := { name := "deep" } }] },
      { file := "low", methods := [run] },
      { file := "deep", methods := [run] }] }

/-- The pair is linked behind the objects inside, and both links lead forward. -/
theorem Program.links_lead_forward_paired :
  ∃ laid, pairedProgram.CompilesTo {} laid ∧ laid.order = [0, 1, 2, 3, 4]
    ∧ (laid.object 1).file = "left.spin" ∧ (laid.object 3).file = "right.spin"
    ∧ ((Build.shareDuplicates.run laid).2.object 1).replacement = some 3
    ∧ ((Build.shareDuplicates.run laid).2.object 2).replacement = some 4
    ∧ laid.LinksForward (Build.shareDuplicates.run laid).2
  := by
  obtain ⟨registered, hregister, ⟨⟩, laid, hbuild, horder, hleft, hright, hpair, hbelow⟩ :
      ∃ registered, pairedProgram.register = .ok registered
        ∧ ∃ u laid, Yields (Step.build {}) registered u laid
        ∧ laid.order = [0, 1, 2, 3, 4]
        ∧ (laid.object 1).file = "left.spin" ∧ (laid.object 3).file = "right.spin"
        ∧ ((Build.shareDuplicates.run laid).2.object 1).replacement = some 3
        ∧ ((Build.shareDuplicates.run laid).2.object 2).replacement = some 4 := by
    decide +kernel
  have hcompiles := CompilesTo.of_build hregister hbuild
  exact ⟨laid, hcompiles, horder, hleft, hright, hpair, hbelow,
    Program.links_lead_forward hcompiles⟩

end SpinHub
