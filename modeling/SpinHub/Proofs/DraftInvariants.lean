import Mathlib
import SpinHub.Proofs.CodeInStep

/-!
# Invariants of drafts

`Leads` says what holds after a successful run that starts where something else holds. What every
kind of step keeps, in the sense of `Emit.Invariant`, is kept by the code of all expressions, and so
the statements on top of them need a few lines each.
-/

namespace SpinHub

variable {σ α β : Type}

/-- From a state with `P` a successful run leads to a result and a state with `Q`. -/
def Leads (P : σ → Prop) (x : ExceptT Fault (StateM σ) α) (Q : α → σ → Prop) : Prop :=
  ∀ s a s', P s → Yields x s a s' → Q a s'

namespace Leads

variable {P P' : σ → Prop} {Q Q' : α → σ → Prop} {R : β → σ → Prop}

theorem pure {a : α} (h : ∀ s, P s → Q a s) :
  Leads P (pure a) Q
  := by
  intro s b s' hs hyields
  obtain ⟨rfl, rfl⟩ := yields_pure.mp hyields
  exact h _ hs

theorem bind {x : ExceptT Fault (StateM σ) α} {f : α → ExceptT Fault (StateM σ) β}
    (hx : Leads P x Q) (hf : ∀ a, Leads (Q a) (f a) R) :
  Leads P (x >>= f) R
  := by
  intro s b s' hs hyields
  obtain ⟨a, m, hfirst, hsecond⟩ := yields_bind.mp hyields
  exact hf a _ _ _ (hx _ _ _ hs hfirst) hsecond

/-- One part and then another. -/
theorem andThen {x : ExceptT Fault (StateM σ) PUnit} {y : ExceptT Fault (StateM σ) β}
    (hx : Leads P x fun _ => P') (hy : Leads P' y R) :
  Leads P (do x; y) R
  := bind hx fun _ => hy

theorem mono {x : ExceptT Fault (StateM σ) α} (h : Leads P x Q) (hP : ∀ s, P' s → P s)
    (hQ : ∀ a s, Q a s → Q' a s) :
  Leads P' x Q'
  := fun s a s' hs hyields => hQ a s' (h s a s' (hP s hs) hyields)

/-- A fact that holds at the start may be used. -/
theorem assume {p : Prop} {x : ExceptT Fault (StateM σ) α} (h : p → Leads P x Q) :
  Leads (fun s => p ∧ P s) x Q
  := fun s a s' hs hyields => h hs.1 s a s' hs.2 hyields

theorem modify {f : σ → σ} {Q : PUnit → σ → Prop} (h : ∀ s, P s → Q ⟨⟩ (f s)) :
  Leads P (modify f) Q
  := by
  intro s u s' hs hyields
  obtain rfl := yields_modify.mp hyields
  exact h s hs

theorem forM {ι : Type} {f : ι → ExceptT Fault (StateM σ) PUnit} {items : List ι}
    (h : ∀ item ∈ items, Leads P (f item) fun _ => P) :
  Leads P (items.forM f) fun _ => P
  := by
  induction items with
  | nil => exact pure fun _ => id
  | cons item rest ih =>
    obtain ⟨hitem, hrest⟩ := List.forall_mem_cons.mp h
    exact andThen hitem (ih hrest)

end Leads

namespace Emit

@[simp]
theorem yields_evaluate {x : Eval α} {a : α} {d d' : Draft} :
  Yields (evaluate x) d a d' ↔ ∃ memo, Yields x d.memo a memo ∧ d' = { d with memo }
  := by
  rw [Yields, evaluate, ExceptT.run_mk, StateT.run]
  constructor
  · intro h
    obtain ⟨hresult, rfl⟩ := Prod.ext_iff.mp h
    use (x.run.run d.memo).2
    exact ⟨Prod.ext hresult rfl, rfl⟩
  · rintro ⟨memo, h, rfl⟩
    rw [Yields] at h
    simp only [h]

/-- A failed evaluation keeps the memo that it has reached. -/
theorem yields_evaluate? {x : Eval α} {a : Option α} {d d' : Draft}
    (h : Yields (evaluate? x) d a d') :
  ∃ memo, d' = { d with memo }
  := by
  use (x.run.run d.memo).2
  rw [Yields, evaluate?, run_tryCatch, map_eq_pure_bind, run_bind] at h
  revert h
  rw [evaluate, ExceptT.run_mk, StateT.run]
  rcases x.run.run d.memo with ⟨fault | b, memo⟩ <;> rintro ⟨_, _⟩ <;> rfl

/-- What was around a part is there again behind it. -/
theorem yields_restoring {part : Emit Unit} {u : Unit} {d d' : Draft} :
  Yields (restoring part) d u d' ↔ ∃ m, Yields part d u m ∧ d' = { m with nest := d.nest }
  := by
  rw [Yields, restoring, ExceptT.run_mk, StateT.run]
  constructor
  · intro h
    obtain ⟨hresult, rfl⟩ := Prod.ext_iff.mp h
    use (part.run.run d).2
    exact ⟨Prod.ext hresult rfl, rfl⟩
  · rintro ⟨m, h, rfl⟩
    rw [Yields] at h
    simp only [h]

/-- A part that fails has been surrounded by the same, too. -/
theorem fails_restoring {part : Emit Unit} {fault : Fault} {d d' : Draft} :
  Fails (restoring part) d fault d' ↔ ∃ m, Fails part d fault m ∧ d' = { m with nest := d.nest }
  := by
  rw [Fails, restoring, ExceptT.run_mk, StateT.run]
  constructor
  · intro h
    obtain ⟨hresult, rfl⟩ := Prod.ext_iff.mp h
    use (part.run.run d).2
    exact ⟨Prod.ext hresult rfl, rfl⟩
  · rintro ⟨m, h, rfl⟩
    rw [Fails] at h
    simp only [h]

/-- A family of properties of drafts that each step of the code of expressions keeps. -/
structure Invariant {ι : Type} (P : ι → Draft → Prop) : Prop where
  aside : ∀ {i : ι} {d : Draft} (memo : Memo) (warnings : List (Pos × String)), P i d →
    P i { d with memo, warnings }
  code : ∀ (i : ι) (bytes : Bytes), Leads (P i) (code bytes) fun _ => P i
  string : ∀ (i : ι) (text : String), Leads (P i) (string text) fun _ => P i
  answered : ∀ {x : Emit Unit}, (∀ i, Leads (P i) x fun _ => P i) →
    ∀ i, Leads (P i) (answered x) fun _ => P i

/-- What is written in step keeps every invariant. -/
theorem InStep.leads {ι : Type} {P : ι → Draft → Prop} (hP : Invariant P) {V : α → α → Prop}
    {x y : Emit α} (h : InStep V x y) (i : ι) :
  Leads (P i) x fun _ => P i
  := by
  induction h generalizing i with
  | pure => exact Leads.pure fun _ => id
  | bind hxy _ hx hf =>
    intro d b d' hd hyields
    obtain ⟨a, m, hfirst, hsecond⟩ := yields_bind.mp hyields
    obtain ⟨c, hac⟩ := hxy.parallel.exists_of_yields hfirst
    exact hf a c hac i _ _ _ (hx i _ _ _ hd hfirst) hsecond
  | throw =>
    intro d a d' _ hyields
    cases hyields
  | code bytes => exact hP.code i bytes
  | string text => exact hP.string i text
  | warn pos text => exact Leads.modify fun d => hP.aside d.memo (d.warnings ++ [(pos, text)])
  | evaluate =>
    intro d a d' hd hyields
    obtain ⟨memo, _, rfl⟩ := yields_evaluate.mp hyields
    exact hP.aside memo d.warnings hd
  | evaluate? =>
    intro d a d' hd hyields
    obtain ⟨memo, rfl⟩ := yields_evaluate? hyields
    exact hP.aside memo d.warnings hd
  | answered _ hx => exact hP.answered hx i

namespace Invariant

variable {ι : Type} {P : ι → Draft → Prop} (hP : Invariant P) (site : Site)

include hP

theorem push (e : Exp) (i : ι) :
  Leads (P i) (e.push site) fun _ => P i
  := (Exp.push_inStep rfl e).leads hP i

theorem run (e : Exp) (i : ι) :
  Leads (P i) (e.run site) fun _ => P i
  := (Exp.run_inStep rfl e).leads hP i

theorem access (e : Exp) (access : Access) (i : ι) :
  Leads (P i) (e.access site access) fun _ => P i
  := (Exp.access_inStep rfl e access).leads hP i

/-- The tests of an arm keep what the jump to the arm keeps. -/
theorem armTests {i : ι} {target : Target}
    (hjump : ∀ byte, Leads (P i) (jump byte target) fun _ => P i) (tests : List (Range Exp)) :
  Leads (P i) (site.armTests tests target) fun _ => P i
  := by
  apply Leads.forM
  intro item hitem
  obtain ⟨_, hstep⟩ := Exp.inStep_of_mem_rangeCodes hitem
  cases hstep with
  | single hcode => exact .andThen (hcode.push.leads hP i) (hjump 0x0d)
  | span hlow hhigh =>
    exact .andThen (hlow.push.leads hP i) (.andThen (hhigh.push.leads hP i) (hjump 0x0e))

end Invariant

end Emit

end SpinHub
