import Mathlib
import SpinHub.Proofs.CodeInStep

/-!
# Statements by their keys

A body of statements and the body with the keys of its names leave the same draft, at sites that
are the same up to case. The induction is on the statements; what the statements are made of
besides expressions, the targets and the jumps, has no names.
-/

namespace SpinHub

open Emit (InStep)

variable {site site' : Site}

/-- Related lists stay related when each is paired with the same list. -/
theorem forall₂_zip {α β : Type} {R : α → α → Prop} {items items' : List α}
    (h : List.Forall₂ R items items') (others : List β) :
  List.Forall₂ (fun pair pair' => R pair.1 pair'.1 ∧ pair.2 = pair'.2) (items.zip others)
    (items'.zip others)
  := by
  induction h generalizing others with
  | nil => exact .nil
  | cons hab _ ih =>
    cases others with
    | nil => exact .nil
    | cons other others => exact .cons ⟨hab, rfl⟩ (ih others)

/-- What was around parts that run in parallel is restored in both. -/
theorem restoring_parallel {x y : Emit Unit} (h : Parallel Eq Eq x y) :
  Parallel Eq Eq (Emit.restoring x) (Emit.restoring y)
  := by
  rintro draft _ rfl
  obtain ⟨hresult, hdraft⟩ := h draft draft rfl
  exact ⟨hresult, congrArg (fun out : Draft => { out with nest := draft.nest }) hdraft⟩

/-! ### Forms of statements -/

namespace Site

section

variable (h : site.Alike site')

include h

/-- Leaving a method is compiled in the same way in all spellings of the value. -/
theorem leaveMethod_parallel (bare : UInt8) (value : Option Exp) :
  Parallel Eq Eq (site.leaveMethod bare value) (site'.leaveMethod bare (value.map Exp.keyed))
  := by
  cases value with
  | none => exact Parallel.refl_eq _
  | some e => exact (Exp.push_inStep h e).parallel.andThen (Parallel.refl_eq _)

theorem builtin_parallel (opcode : UInt8) (args : List Exp) :
  Parallel Eq Eq (site.builtin opcode args) (site'.builtin opcode (args.map Exp.keyed))
  := by
  refine Parallel.andThen ?_ (Parallel.refl_eq _)
  have hitems : List.Forall₂ (fun e e' => e' = e.keyed) args (args.map Exp.keyed) := by
    rw [List.forall₂_map_right_iff]
    exact List.forall₂_same.mpr fun _ _ => rfl
  apply Parallel.forM hitems
  rintro e _ rfl
  exact (Exp.push_inStep h e).parallel

/-- A branch runs in parallel if its parts do. -/
theorem branch_parallel (negated : Bool) (condition : Exp) {yes yes' : Emit Unit}
    {no no' : Option (Emit Unit)} (hyes : Parallel Eq Eq yes yes')
    (hno : Option.Rel (Parallel Eq Eq) no no') :
  Parallel Eq Eq (site.branch negated condition yes no)
    (site'.branch negated condition.keyed yes' no')
  := by
  refine (Exp.push_inStep h condition).parallel.andThen ?_
  apply Parallel.bind_same
  intro otherwise
  refine Parallel.andThen (Parallel.refl_eq _) ?_
  refine Parallel.andThen hyes ?_
  cases hno with
  | none => exact Parallel.refl_eq _
  | some hno =>
    apply Parallel.bind_same
    intro done
    refine Parallel.andThen (Parallel.refl_eq _) ?_
    refine Parallel.andThen (Parallel.refl_eq _) ?_
    exact hno.andThen (Parallel.refl_eq _)

/-- The passes of a loop run in parallel if its body does. -/
theorem passes_parallel (loop : Loop) (control : LoopControl) {body body' : Emit Unit}
    (hbody : Parallel Eq Eq body body') :
  Parallel Eq Eq (site.passes loop control body) (site'.passes loop control.keyed body')
  := by
  cases control with
  | forever =>
    refine Parallel.andThen (Parallel.refl_eq _) ?_
    exact hbody.andThen (Parallel.refl_eq _)
  | times count =>
    refine (Exp.push_inStep h count).parallel.andThen ?_
    refine Parallel.andThen (Parallel.refl_eq _) ?_
    apply Parallel.bind_same
    intro top
    refine Parallel.andThen (Parallel.refl_eq _) ?_
    exact hbody.andThen (Parallel.refl_eq _)
  | before negated condition =>
    refine Parallel.andThen (Parallel.refl_eq _) ?_
    refine (Exp.push_inStep h condition).parallel.andThen ?_
    refine Parallel.andThen (Parallel.refl_eq _) ?_
    exact hbody.andThen (Parallel.refl_eq _)
  | after negated condition =>
    apply Parallel.bind_same
    intro top
    refine Parallel.andThen (Parallel.refl_eq _) ?_
    refine Parallel.andThen hbody ?_
    refine Parallel.andThen (Parallel.refl_eq _) ?_
    exact (Exp.push_inStep h condition).parallel.andThen (Parallel.refl_eq _)
  | fromTo counter first last step =>
    apply Parallel.bind_same
    intro top
    refine (Exp.push_inStep h first).parallel.andThen ?_
    refine (Exp.access_inStep h counter .store).parallel.andThen ?_
    refine Parallel.andThen (Parallel.refl_eq _) ?_
    refine Parallel.andThen hbody ?_
    refine Parallel.andThen (Parallel.refl_eq _) ?_
    have hstep (byte : UInt8) : Parallel Eq Eq
        (do first.push site; last.push site; counter.access site .modify; Emit.jump byte top)
        (do
          first.keyed.push site'
          last.keyed.push site'
          counter.keyed.access site' .modify
          Emit.jump byte top) := by
      refine (Exp.push_inStep h first).parallel.andThen ?_
      refine (Exp.push_inStep h last).parallel.andThen ?_
      exact (Exp.access_inStep h counter .modify).parallel.andThen (Parallel.refl_eq _)
    cases step with
    | none => exact hstep _
    | some e => exact (Exp.push_inStep h e).parallel.andThen (hstep _)

theorem loop_parallel (control : LoopControl) {body body' : Emit Unit}
    (hbody : Parallel Eq Eq body body') :
  Parallel Eq Eq (site.loop control body) (site'.loop control.keyed body')
  := by
  apply restoring_parallel
  apply Parallel.bind_same
  intro next
  apply Parallel.bind_same
  intro quit
  cases control <;>
    exact .andThen (Parallel.refl_eq _)
      (.andThen (passes_parallel h _ _ hbody) (Parallel.refl_eq _))

theorem armTests_parallel (tests : List (Range Exp)) (target : Target) :
  Parallel Eq Eq (site.armTests tests target) (site'.armTests (Exp.keyedRanges tests) target)
  := by
  apply Parallel.forM (Exp.rangeCodes_inStep h tests)
  intro item item' hitem
  cases hitem with
  | single hcode => exact hcode.push.parallel.andThen (Parallel.refl_eq _)
  | span hlow hhigh =>
    refine hlow.push.parallel.andThen ?_
    exact hhigh.push.parallel.andThen (Parallel.refl_eq _)

end

/-- Two spellings of an arm of a CASE: the tests by their keys, and the bodies in parallel. -/
def ArmAlike (arm arm' : List (Range Exp) × Emit Unit) : Prop :=
  arm'.1 = Exp.keyedRanges arm.1 ∧ Parallel Eq Eq arm.2 arm'.2

/-- A selection runs in parallel if its arms do, one by one. -/
theorem select_parallel (h : site.Alike site') (value : Exp)
    {arms arms' : List (List (Range Exp) × Emit Unit)} (harms : List.Forall₂ ArmAlike arms arms')
    {other other' : Emit Unit} (hother : Parallel Eq Eq other other') :
  Parallel Eq Eq (site.select value arms other) (site'.select value.keyed arms' other')
  := by
  apply Parallel.bind_same
  intro done
  refine Parallel.andThen (Parallel.refl_eq _) ?_
  refine (Exp.push_inStep h value).parallel.andThen ?_
  apply Parallel.bind (Parallel.mapM_eq harms fun _ _ _ => Parallel.refl_eq Emit.newTarget)
  rintro targets _ rfl
  have hzip := forall₂_zip harms targets
  refine Parallel.andThen (Parallel.forM hzip ?_) ?_
  · rintro ⟨arm, target⟩ ⟨arm', _⟩ ⟨⟨htests, _⟩, rfl⟩
    dsimp only
    rw [htests]
    exact armTests_parallel h arm.1 target
  · refine Parallel.andThen hother ?_
    refine Parallel.andThen (Parallel.refl_eq _) ?_
    refine Parallel.andThen (Parallel.forM hzip ?_) (Parallel.refl_eq _)
    rintro ⟨arm, target⟩ ⟨arm', _⟩ ⟨⟨_, hbody⟩, rfl⟩
    refine Parallel.andThen (Parallel.refl_eq _) ?_
    exact hbody.andThen (Parallel.refl_eq _)

theorem cases_parallel (h : site.Alike site') (value : Exp)
    {arms arms' : List (List (Range Exp) × Emit Unit)} (harms : List.Forall₂ ArmAlike arms arms')
    {other other' : Emit Unit} (hother : Parallel Eq Eq other other') :
  Parallel Eq Eq (site.cases value arms other) (site'.cases value.keyed arms' other')
  := .andThen (Parallel.refl_eq _)
    (.andThen (select_parallel h value harms hother) (Parallel.refl_eq _))

end Site

/-! ### Statements -/

mutual

/-- A statement has one code in all spellings, by induction on the statement. -/
theorem Stmt.emit_parallel (h : site.Alike site') :
    ∀ statement : Stmt, Parallel Eq Eq (statement.emit site) (statement.keyed.emit site')
  | .exp pos e => by
    rw [Stmt.keyed, Stmt.emit, Stmt.emit]
    exact (Exp.run_inStep h e).parallel
  | .ret pos value => by
    rw [Stmt.keyed, Stmt.emit, Stmt.emit]
    exact Site.leaveMethod_parallel h _ value
  | .abort pos value => by
    rw [Stmt.keyed, Stmt.emit, Stmt.emit]
    exact Site.leaveMethod_parallel h _ value
  | .branch pos negated condition yes none => by
    rw [Stmt.keyed, Stmt.emit, Stmt.emit]
    exact Site.branch_parallel h negated condition (Stmt.block_parallel h yes) .none
  | .branch pos negated condition yes (some alternative) => by
    rw [Stmt.keyed, Stmt.emit, Stmt.emit]
    exact Site.branch_parallel h negated condition (Stmt.block_parallel h yes)
      (.some (Stmt.block_parallel h alternative))
  | .loop pos control body => by
    rw [Stmt.keyed, Stmt.emit, Stmt.emit]
    exact Site.loop_parallel h control (Stmt.block_parallel h body)
  | .next pos => by
    rw [Stmt.keyed, Stmt.emit, Stmt.emit]
    exact Parallel.refl_eq _
  | .quit pos => by
    rw [Stmt.keyed, Stmt.emit, Stmt.emit]
    exact Parallel.refl_eq _
  | .select pos value arms other => by
    rw [Stmt.keyed, Stmt.emit, Stmt.emit]
    exact Site.cases_parallel h value (Stmt.arms_parallel h arms) (Stmt.block_parallel h other)
  | .reboot pos => by
    rw [Stmt.keyed, Stmt.emit, Stmt.emit]
    exact Parallel.refl_eq _
  | .fillMove pos op args => by
    rw [Stmt.keyed, Stmt.emit, Stmt.emit]
    exact Site.builtin_parallel h _ args
  | .wait pos op args => by
    rw [Stmt.keyed, Stmt.emit, Stmt.emit]
    exact Site.builtin_parallel h _ args
  | .clkset pos mode frequency => by
    rw [Stmt.keyed, Stmt.emit, Stmt.emit]
    exact Site.builtin_parallel h _ [mode, frequency]
  | .cogstop pos cog => by
    rw [Stmt.keyed, Stmt.emit, Stmt.emit]
    exact Site.builtin_parallel h _ [cog]

/-- A block has one code in all spellings. -/
theorem Stmt.block_parallel (h : site.Alike site') :
    ∀ body : List Stmt, Parallel Eq Eq (Stmt.block site body)
      (Stmt.block site' (Stmt.keyedBlock body))
  | [] => by
    rw [Stmt.keyedBlock, Stmt.block, Stmt.block]
    exact Parallel.refl_eq _
  | statement :: rest => by
    rw [Stmt.keyedBlock, Stmt.block, Stmt.block]
    exact (Stmt.emit_parallel h statement).andThen (Stmt.block_parallel h rest)

/-- The bodies of arms have one code in all spellings. -/
theorem Stmt.arms_parallel (h : site.Alike site') :
    ∀ arms : List Arm, List.Forall₂ Site.ArmAlike (Stmt.arms site arms)
      (Stmt.arms site' (Stmt.keyedArms arms))
  | [] => by
    rw [Stmt.keyedArms, Stmt.arms, Stmt.arms]
    exact .nil
  | .mk tests body :: rest => by
    rw [Stmt.keyedArms, Stmt.arms, Stmt.arms]
    exact .cons ⟨rfl, Stmt.block_parallel h body⟩ (Stmt.arms_parallel h rest)

end

/-- Two spellings of a body leave one draft. -/
theorem Site.draft_alike (h : site.Alike site') {body body' : List Stmt}
    (hbody : Stmt.keyedBlock body = Stmt.keyedBlock body') :
  Parallel Eq Eq (site.draft body) (site'.draft body')
  := by
  -- Both bodies run in parallel with the one keyed body that they have in common.
  have hthere := Stmt.block_parallel h body
  have hback : Parallel Eq Eq (Stmt.block site' body')
      (Stmt.block site' (Stmt.keyedBlock body')) := Stmt.block_parallel rfl body'
  rw [hbody] at hthere
  have hblock := hthere.trans (hback.symm Eq.symm Eq.symm) (fun _ => rfl) Eq.trans Eq.trans
  rintro memo _ rfl
  obtain ⟨hresult, hdraft⟩ := hblock { memo } { memo } rfl
  refine ⟨?_, (congrArg Draft.memo hdraft :)⟩
  change SameOutcome Eq (Except.map (fun _ => _) _) (Except.map (fun _ => _) _)
  rw [hdraft]
  revert hresult
  generalize ((Stmt.block site body).run.run { memo }).1 = result
  generalize ((Stmt.block site' body').run.run { memo }).1 = result'
  rintro (_ | hfaults)
  · exact .ok rfl
  · exact .error hfaults

end SpinHub
