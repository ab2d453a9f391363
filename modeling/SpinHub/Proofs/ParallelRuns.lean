import Mathlib
import SpinHub.Proofs.KeyedNames
import SpinHub.Proofs.Runs

/-!
# Parallel runs

Two computations run in parallel if they start in related states, and then end alike and leave
related states: both succeed, with related results, or both fail, with faults of one kind at one
place. Causes name what they are about, and so faults are compared without their wording.
-/

namespace SpinHub

variable {σ α β : Type}

/-- What faults have in common that differ in the spelling of names: the kind, the place and the
file by its key. -/
def Fault.sketch (fault : Fault) : Kind × Pos × Option String :=
  (fault.cause.kind, fault.pos, fault.file.map nameKey)

/-- Faults of one sketch keep it when they are given the names of files that are the same up to
case. -/
theorem Fault.sketch_inFile {f g : Fault} (h : f.sketch = g.sketch) {file file' : String}
    (hfile : nameKey file = nameKey file') :
  (f.inFile file).sketch = (g.inFile file').sketch
  := by
  simp only [sketch, Prod.mk.injEq] at h
  obtain ⟨hkind, hpos, hfiles⟩ := h
  simp only [sketch, inFile, hkind, hpos, Option.map_some]
  cases hf : f.file with
  | none =>
    cases hg : g.file with
    | none => rw [Option.getD_none, Option.getD_none, hfile]
    | some other =>
      rw [hf, hg] at hfiles
      cases hfiles
  | some own =>
    cases hg : g.file with
    | none =>
      rw [hf, hg] at hfiles
      cases hfiles
    | some other =>
      rw [hf, hg, Option.map_some, Option.map_some, Option.some_inj] at hfiles
      rw [Option.getD_some, Option.getD_some, hfiles]

/-- Two results are related, or two faults differ at most in their wording. -/
inductive SameOutcome (V : α → β → Prop) : Except Fault α → Except Fault β → Prop where
  | ok {a : α} {b : β} : V a b → SameOutcome V (.ok a) (.ok b)
  | error {f g : Fault} : f.sketch = g.sketch → SameOutcome V (.error f) (.error g)

namespace SameOutcome

theorem mono {V W : α → β → Prop} {x : Except Fault α} {y : Except Fault β}
    (h : SameOutcome V x y) (hVW : ∀ a b, V a b → W a b) :
  SameOutcome W x y
  := by
  cases h with
  | ok hab => exact .ok (hVW _ _ hab)
  | error hfg => exact .error hfg

theorem symm {V : α → α → Prop} {x y : Except Fault α} (h : SameOutcome V x y)
    (hV : ∀ {a b}, V a b → V b a) :
  SameOutcome V y x
  := by
  cases h with
  | ok hab => exact .ok (hV hab)
  | error hfg => exact .error hfg.symm

theorem trans {V : α → α → Prop} {x y z : Except Fault α} (hxy : SameOutcome V x y)
    (hyz : SameOutcome V y z) (hV : ∀ {a b c}, V a b → V b c → V a c) :
  SameOutcome V x z
  := by
  cases hxy with
  | ok hab =>
    cases hyz with
    | ok hbc => exact .ok (hV hab hbc)
  | error hfg =>
    cases hyz with
    | error hgh => exact .error (hfg.trans hgh)

theorem refl_eq (x : Except Fault α) :
  SameOutcome Eq x x
  := by
  cases x with
  | ok a => exact .ok rfl
  | error f => exact .error rfl

/-- What succeeds has the same outcome only with what succeeds. -/
theorem of_ok {V : α → β → Prop} {a : α} {y : Except Fault β} (h : SameOutcome V (.ok a) y) :
  ∃ b, y = .ok b ∧ V a b
  := by
  cases h with
  | ok hab => exact ⟨_, rfl, hab⟩

/-- Results with the same outcome lead to results with the same outcome. -/
theorem bind {α' β' : Type} {V : α → β → Prop} {W : α' → β' → Prop} {x : Except Fault α}
    {y : Except Fault β} {f : α → Except Fault α'} {g : β → Except Fault β'}
    (hx : SameOutcome V x y) (hf : ∀ a b, V a b → SameOutcome W (f a) (g b)) :
  SameOutcome W (x >>= f) (y >>= g)
  := by
  cases hx with
  | ok hab => exact hf _ _ hab
  | error hfg => exact .error hfg

theorem inFile {V : α → β → Prop} {x : Except Fault α} {y : Except Fault β}
    (h : SameOutcome V x y) {file file' : String} (hfile : nameKey file = nameKey file') :
  SameOutcome V (x.mapError (·.inFile file)) (y.mapError (·.inFile file'))
  := by
  cases h with
  | ok hab => exact .ok hab
  | error hfg => exact .error (Fault.sketch_inFile hfg hfile)

end SameOutcome

/-- From related states the computations end alike and leave related states. -/
def Parallel (S : σ → σ → Prop) (V : α → β → Prop) (x : ExceptT Fault (StateM σ) α)
    (y : ExceptT Fault (StateM σ) β) : Prop :=
  ∀ s t, S s t → SameOutcome V (x.run.run s).1 (y.run.run t).1
    ∧ S (x.run.run s).2 (y.run.run t).2

namespace Parallel

variable {S : σ → σ → Prop} {V : α → α → Prop} {W : β → β → Prop}

/-- Computations that run in parallel for a relation of results do so for any weaker one. -/
theorem mono {V' : α → α → Prop} {x y : ExceptT Fault (StateM σ) α} (h : Parallel S V x y)
    (hV : ∀ a b, V a b → V' a b) :
  Parallel S V' x y
  := by
  intro s t hst
  obtain ⟨hresult, hstate⟩ := h s t hst
  exact ⟨hresult.mono hV, hstate⟩

/-- The two computations may be exchanged. -/
theorem symm {x y : ExceptT Fault (StateM σ) α} (h : Parallel S V x y)
    (hS : ∀ {s t}, S s t → S t s) (hV : ∀ {a b}, V a b → V b a) :
  Parallel S V y x
  := by
  intro s t hst
  obtain ⟨hresult, hstate⟩ := h t s (hS hst)
  exact ⟨hresult.symm hV, hS hstate⟩

/-- Computations that run in parallel with a third one run in parallel. -/
theorem trans {x y z : ExceptT Fault (StateM σ) α} (hxy : Parallel S V x y)
    (hyz : Parallel S V y z) (hrefl : ∀ s, S s s) (hS : ∀ {s t u}, S s t → S t u → S s u)
    (hV : ∀ {a b c}, V a b → V b c → V a c) :
  Parallel S V x z
  := by
  intro s u hsu
  obtain ⟨hfirst, hmiddle⟩ := hxy s u hsu
  obtain ⟨hsecond, hlast⟩ := hyz u u (hrefl u)
  exact ⟨hfirst.trans hsecond hV, hS hmiddle hlast⟩

/-- A computation runs in parallel with itself. -/
theorem refl_eq (x : ExceptT Fault (StateM σ) α) :
  Parallel Eq Eq x x
  := by
  rintro s _ rfl
  exact ⟨SameOutcome.refl_eq _, rfl⟩

/-- A result that comes about is related to one of the other computation. -/
theorem exists_of_yields {x y : ExceptT Fault (StateM σ) α} (h : Parallel Eq V x y) {s s' : σ}
    {a : α} (hyields : Yields x s a s') :
  ∃ b, V a b
  := by
  have hsame := (h s s rfl).1
  rw [hyields] at hsame
  obtain ⟨b, _, hab⟩ := hsame.of_ok
  exact ⟨b, hab⟩

/-! ### Steps of computations -/

theorem pure {a b : α} (h : V a b) :
  Parallel S V (pure a) (pure b)
  := fun _ _ hst => ⟨.ok h, hst⟩

theorem throw {f g : Fault} (h : f.sketch = g.sketch) :
  Parallel S V (throw f : ExceptT Fault (StateM σ) α) (throw g)
  := fun _ _ hst => ⟨.error h, hst⟩

/-- Failures for one kind of cause run in parallel. -/
theorem failAt (pos : Pos) {c c' : Cause} (h : c.kind = c'.kind) :
  Parallel S V (failAt pos c : ExceptT Fault (StateM σ) α) (failAt pos c')
  := by
  apply throw
  simp only [Fault.sketch, h]

/-- Two parts run in parallel if each does. -/
theorem bind {x y : ExceptT Fault (StateM σ) α} {f g : α → ExceptT Fault (StateM σ) β}
    (hx : Parallel S V x y) (hf : ∀ a b, V a b → Parallel S W (f a) (g b)) :
  Parallel S W (x >>= f) (y >>= g)
  := by
  intro s t hst
  obtain ⟨hresult, hstate⟩ := hx s t hst
  rw [run_bind, run_bind]
  revert hresult hstate
  rcases x.run.run s with ⟨xr, s'⟩
  rcases y.run.run t with ⟨yr, t'⟩
  intro hresult hstate
  cases hresult with
  | ok hab => apply hf _ _ hab _ _ hstate
  | error hfg => exact ⟨.error hfg, hstate⟩

/-- A check that both computations make first. -/
theorem check {p : Prop} [Decidable p] (pos : Pos) (c : Cause)
    {f g : α → ExceptT Fault (StateM σ) β} {x y : ExceptT Fault (StateM σ) β}
    (hxy : Parallel S W x y) :
  Parallel S W (if p then SpinHub.failAt pos c >>= f else x)
    (if p then SpinHub.failAt pos c >>= g else y)
  := by
  split_ifs
  · have hfail : Parallel S (fun _ _ => False)
        (SpinHub.failAt pos c : ExceptT Fault (StateM σ) α) (SpinHub.failAt pos c) := failAt pos rfl
    exact bind hfail nofun
  · exact hxy

/-- One computation and then another. -/
theorem andThen {x y : ExceptT Fault (StateM σ) PUnit} {x' y' : ExceptT Fault (StateM σ) β}
    (hx : Parallel S Eq x y) (hx' : Parallel S W x' y') :
  Parallel S W (do x; x') (do y; y')
  := bind hx fun _ _ _ => hx'

/-- The same computation and then others. -/
theorem bind_same (x : ExceptT Fault (StateM σ) α) {f g : α → ExceptT Fault (StateM σ) β}
    (hf : ∀ a, Parallel Eq W (f a) (g a)) :
  Parallel Eq W (x >>= f) (x >>= g)
  := by
  apply bind (refl_eq x)
  rintro a _ rfl
  apply hf

theorem map {x y : ExceptT Fault (StateM σ) α} {f g : α → β} (hx : Parallel S V x y)
    (hf : ∀ a b, V a b → W (f a) (g b)) :
  Parallel S W (f <$> x) (g <$> y)
  := by
  rw [map_eq_pure_bind, map_eq_pure_bind]
  apply bind hx
  intro a b hab
  apply pure (hf a b hab)

theorem liftM {e e' : Except Fault α} (h : SameOutcome V e e') :
  Parallel S V (liftM e : ExceptT Fault (StateM σ) α) (liftM e')
  := by
  intro s t hst
  cases h with
  | ok hab => exact ⟨.ok hab, hst⟩
  | error hfg => exact ⟨.error hfg, hst⟩

theorem liftAt (pos : Pos) (e : Except Cause α) :
  Parallel S Eq (liftAt pos e : ExceptT Fault (StateM σ) α) (liftAt pos e)
  := by
  cases e with
  | ok a => apply pure rfl
  | error cause => apply failAt pos rfl

theorem get :
  Parallel S S (get : ExceptT Fault (StateM σ) σ) get
  := fun _ _ hst => ⟨.ok hst, hst⟩

theorem modify {f g : σ → σ} (h : ∀ s t, S s t → S (f s) (g t)) :
  Parallel S Eq (modify f : ExceptT Fault (StateM σ) PUnit) (modify g)
  := fun s t hst => ⟨.ok rfl, h s t hst⟩

/-- Handlers of faults with one sketch run in parallel with what they handle. -/
theorem tryCatch {x y : ExceptT Fault (StateM σ) α} {h k : Fault → ExceptT Fault (StateM σ) α}
    (hx : Parallel S V x y) (hh : ∀ f g, f.sketch = g.sketch → Parallel S V (h f) (k g)) :
  Parallel S V (tryCatch x h) (tryCatch y k)
  := by
  intro s t hst
  obtain ⟨hresult, hstate⟩ := hx s t hst
  rw [run_tryCatch, run_tryCatch]
  revert hresult hstate
  rcases x.run.run s with ⟨xr, s'⟩
  rcases y.run.run t with ⟨yr, t'⟩
  intro hresult hstate
  cases hresult with
  | ok hab => exact ⟨.ok hab, hstate⟩
  | error hfg => apply hh _ _ hfg _ _ hstate

/-- Naming files that are the same up to case keeps computations parallel. -/
theorem inFile {file file' : String} (hfile : nameKey file = nameKey file')
    {x y : ExceptT Fault (StateM σ) α} (h : Parallel S V x y) :
  Parallel S V (inFile file x) (inFile file' y)
  := by
  apply tryCatch h
  intro f g hfg
  apply throw (Fault.sketch_inFile hfg hfile)

/-! ### Lists -/

/-- Related items give related results, one by one. -/
theorem mapM {ι : Type} {R : ι → ι → Prop} {f g : ι → ExceptT Fault (StateM σ) α}
    {items items' : List ι} (hitems : List.Forall₂ R items items')
    (hf : ∀ i j, R i j → Parallel S V (f i) (g j)) :
  Parallel S (List.Forall₂ V) (items.mapM f) (items'.mapM g)
  := by
  induction hitems with
  | nil => apply pure .nil
  | cons hij _ ih =>
    rw [List.mapM_cons, List.mapM_cons]
    apply bind (hf _ _ hij)
    intro a b hab
    apply bind ih
    intro as bs habs
    apply pure (.cons hab habs)

theorem mapM_eq {ι : Type} {R : ι → ι → Prop} {f g : ι → ExceptT Fault (StateM σ) α}
    {items items' : List ι} (hitems : List.Forall₂ R items items')
    (hf : ∀ i j, R i j → Parallel S Eq (f i) (g j)) :
  Parallel S Eq (items.mapM f) (items'.mapM g)
  := by
  apply mono (mapM hitems hf)
  intro results results' hresults
  rwa [List.forall₂_eq_eq_eq] at hresults

/-- Related items may be worked on in turn. -/
theorem forM {ι : Type} {R : ι → ι → Prop} {f g : ι → ExceptT Fault (StateM σ) PUnit}
    {items items' : List ι} (hitems : List.Forall₂ R items items')
    (hf : ∀ i j, R i j → Parallel S Eq (f i) (g j)) :
  Parallel S Eq (items.forM f) (items'.forM g)
  := by
  induction hitems with
  | nil => apply pure rfl
  | cons hij _ ih =>
    apply bind (hf _ _ hij)
    intro _ _ _
    apply ih

end Parallel

/-- Lists that a function maps to one list agree in it item by item. -/
theorem forall₂_of_map_eq {f : α → β} {items items' : List α}
    (h : items.map f = items'.map f) :
  List.Forall₂ (fun a b => f a = f b) items items'
  := by
  have hall := List.forall₂_eq_eq_eq ▸ h
  rwa [List.forall₂_map_left_iff, List.forall₂_map_right_iff] at hall

/-- Options that a function maps to one option agree in it. -/
theorem optionRel_of_map_eq {f : α → β} {option option' : Option α}
    (h : option.map f = option'.map f) :
  Option.Rel (fun a b => f a = f b) option option'
  := by
  cases option with
  | none =>
    cases option' with
    | none => exact .none
    | some b => cases h
  | some a =>
    cases option' with
    | none => cases h
    | some b => exact .some (Option.some_inj.mp h)

end SpinHub
