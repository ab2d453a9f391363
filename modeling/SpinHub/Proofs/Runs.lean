import Mathlib
import SpinHub.Build

/-!
# Runs of computations

Evaluation, code generation and the phases of a build all may fail and all carry a state that
a failure keeps. `Yields` and `Fails` say how a run ends, and the lemmas take a run apart along
the computation.
-/

namespace SpinHub

variable {σ α β : Type}

/-- From state `s` the computation succeeds with `a` and leaves `s'`. -/
def Yields (action : ExceptT Fault (StateM σ) α) (s : σ) (a : α) (s' : σ) : Prop :=
  action.run.run s = (.ok a, s')

/-- From state `s` the computation fails with `fault` and leaves `s'`. -/
def Fails (action : ExceptT Fault (StateM σ) α) (s : σ) (fault : Fault) (s' : σ) : Prop :=
  action.run.run s = (.error fault, s')

/-- What a computation yields is known from its result. -/
theorem Yields.of_result {action : ExceptT Fault (StateM σ) α} {s : σ} {a : α}
    (h : (action.run.run s).1 = .ok a) :
  Yields action s a (action.run.run s).2
  := Prod.ext h rfl

/-- A computation has one result from a state. -/
theorem Yields.unique {action : ExceptT Fault (StateM σ) α} {s s₁ s₂ : σ} {a₁ a₂ : α}
    (h₁ : Yields action s a₁ s₁) (h₂ : Yields action s a₂ s₂) :
  a₁ = a₂ ∧ s₁ = s₂
  := by
  cases Eq.trans (Eq.symm h₁) h₂
  exact ⟨rfl, rfl⟩

/-- A computation does not both succeed and fail. -/
theorem Yields.not_fails {action : ExceptT Fault (StateM σ) α} {s s₁ s₂ : σ} {a : α}
    {fault : Fault} (h₁ : Yields action s a s₁) (h₂ : Fails action s fault s₂) :
  False
  := by
  cases Eq.trans (Eq.symm h₁) h₂

/-! ### Deciding by running -/

/-- Whether there is a result with a property is decided by computing the result. -/
instance decidableExistsOk {ε : Type} (e : Except ε α) (P : α → Prop) [DecidablePred P] :
    Decidable (∃ a, e = .ok a ∧ P a) :=
  match e with
  | .error _ => .isFalse (by
    rintro ⟨_, h, _⟩
    cases h)
  | .ok a => decidable_of_iff (P a) ⟨fun h => ⟨a, rfl, h⟩, by
    rintro ⟨_, h, hP⟩
    cases h
    exact hP⟩

/-- Whether a run succeeds with a property is decided by the run. -/
instance decidableExistsYields (action : ExceptT Fault (StateM σ) α) (s : σ) (P : α → σ → Prop)
    [∀ a s', Decidable (P a s')] :
    Decidable (∃ a s', Yields action s a s' ∧ P a s') :=
  match hrun : action.run.run s with
  | (.error _, _) => .isFalse (by
    rintro ⟨_, _, h, _⟩
    cases hrun.symm.trans h)
  | (.ok a, s') => decidable_of_iff (P a s') ⟨fun h => ⟨a, s', hrun, h⟩, by
    rintro ⟨_, _, h, hP⟩
    cases hrun.symm.trans h
    exact hP⟩

/-! ### Sequences -/

/-- The second part runs where the first one stopped, unless that failed. -/
theorem run_bind (x : ExceptT Fault (StateM σ) α) (f : α → ExceptT Fault (StateM σ) β) (s : σ) :
  (x >>= f).run.run s = match x.run.run s with
    | (.ok a, m) => (f a).run.run m
    | (.error fault, m) => (.error fault, m)
  := by
  rw [ExceptT.run_bind, StateT.run_bind]
  rcases x.run.run s with ⟨fault | a, m⟩ <;> rfl

@[simp]
theorem yields_pure {a b : α} {s s' : σ} :
  Yields (pure a) s b s' ↔ b = a ∧ s' = s
  := by
  constructor
  · intro h
    cases h
    exact ⟨rfl, rfl⟩
  · rintro ⟨rfl, rfl⟩
    rfl

@[simp]
theorem fails_pure {a : α} {s s' : σ} {fault : Fault} :
  ¬ Fails (pure a) s fault s'
  := nofun

/-- Two parts succeed in turn through a result and a state between them. -/
@[simp]
theorem yields_bind {x : ExceptT Fault (StateM σ) α} {f : α → ExceptT Fault (StateM σ) β}
    {s s' : σ} {b : β} :
  Yields (x >>= f) s b s' ↔ ∃ a m, Yields x s a m ∧ Yields (f a) m b s'
  := by
  rw [Yields, run_bind]
  constructor
  · intro h
    rcases hx : x.run.run s with ⟨fault | a, m⟩
    · rw [hx] at h
      cases h
    · rw [hx] at h
      use a, m, hx, h
  · rintro ⟨a, m, hx, hf⟩
    rw [Yields] at hx
    rw [hx]
    exact hf

/-- Of two parts in turn, the first fails, or it succeeds and the second fails. -/
@[simp]
theorem fails_bind {x : ExceptT Fault (StateM σ) α} {f : α → ExceptT Fault (StateM σ) β}
    {s s' : σ} {fault : Fault} :
  Fails (x >>= f) s fault s'
    ↔ Fails x s fault s' ∨ ∃ a m, Yields x s a m ∧ Fails (f a) m fault s'
  := by
  rw [Fails, run_bind]
  constructor
  · intro h
    rcases hx : x.run.run s with ⟨fault' | a, m⟩
    · rw [hx] at h
      cases h
      left
      exact hx
    · rw [hx] at h
      right
      use a, m, hx, h
  · rintro (hx | ⟨a, m, hx, hf⟩)
    · rw [Fails] at hx
      rw [hx]
    · rw [Yields] at hx
      rw [hx]
      exact hf

@[simp]
theorem yields_map {x : ExceptT Fault (StateM σ) α} {f : α → β} {s s' : σ} {b : β} :
  Yields (f <$> x) s b s' ↔ ∃ a, Yields x s a s' ∧ b = f a
  := by
  rw [map_eq_pure_bind, yields_bind]
  constructor
  · rintro ⟨a, m, hx, hb⟩
    obtain ⟨rfl, rfl⟩ := yields_pure.mp hb
    use a, hx
  · rintro ⟨a, hx, rfl⟩
    use a, s', hx
    rfl

@[simp]
theorem fails_map {x : ExceptT Fault (StateM σ) α} {f : α → β} {s s' : σ} {fault : Fault} :
  Fails (f <$> x) s fault s' ↔ Fails x s fault s'
  := by
  rw [map_eq_pure_bind, fails_bind]
  simp only [fails_pure, and_false, exists_false, or_false]

/-- Every item gives one result. -/
theorem length_of_mapM {f : α → ExceptT Fault (StateM σ) β} {items : List α} {results : List β}
    {s s' : σ} (h : Yields (items.mapM f) s results s') :
  results.length = items.length
  := by
  induction items generalizing results s with
  | nil =>
    obtain ⟨rfl, _⟩ := yields_pure.mp h
    rfl
  | cons item items ih =>
    rw [List.mapM_cons] at h
    obtain ⟨b, m, _, hrest⟩ := yields_bind.mp h
    obtain ⟨bs, m', hbs, hpure⟩ := yields_bind.mp hrest
    obtain ⟨rfl, rfl⟩ := yields_pure.mp hpure
    rw [List.length_cons, ih hbs, List.length_cons]

/-- What holds of the result of every item holds of all results. -/
theorem forall_of_mapM {p : β → Prop} {f : α → ExceptT Fault (StateM σ) β} {items : List α}
    {results : List β} {s s' : σ} (hf : ∀ {item s b s'}, Yields (f item) s b s' → p b)
    (h : Yields (items.mapM f) s results s') :
  ∀ b ∈ results, p b
  := by
  induction items generalizing results s with
  | nil =>
    obtain ⟨rfl, _⟩ := yields_pure.mp h
    nofun
  | cons item items ih =>
    rw [List.mapM_cons] at h
    obtain ⟨b, m, hb, hrest⟩ := yields_bind.mp h
    obtain ⟨bs, m', hbs, hpure⟩ := yields_bind.mp hrest
    obtain ⟨rfl, rfl⟩ := yields_pure.mp hpure
    intro b' hb'
    rcases List.mem_cons.mp hb' with rfl | hmem
    · apply hf hb
    · apply ih hbs b' hmem

/-! ### The state -/

@[simp]
theorem yields_get {a s s' : σ} :
  Yields (get : ExceptT Fault (StateM σ) σ) s a s' ↔ a = s ∧ s' = s
  := by
  constructor
  · intro h
    cases h
    exact ⟨rfl, rfl⟩
  · rintro ⟨rfl, rfl⟩
    rfl

@[simp]
theorem fails_get {s s' : σ} {fault : Fault} :
  ¬ Fails (get : ExceptT Fault (StateM σ) σ) s fault s'
  := nofun

theorem run_get_bind (f : σ → ExceptT Fault (StateM σ) β) (s : σ) :
  (get >>= f).run.run s = (f s).run.run s
  := rfl

/-- Reading the state only passes it on. -/
theorem yields_get_bind {f : σ → ExceptT Fault (StateM σ) β} {s s' : σ} {b : β} :
  Yields (get >>= f) s b s' ↔ Yields (f s) s b s'
  := by
  simp only [yields_bind, yields_get, and_assoc, exists_and_left, exists_eq_left]

theorem fails_get_bind {f : σ → ExceptT Fault (StateM σ) β} {s s' : σ} {fault : Fault} :
  Fails (get >>= f) s fault s' ↔ Fails (f s) s fault s'
  := by
  simp only [fails_bind, fails_get, yields_get, and_assoc, exists_and_left, exists_eq_left,
    false_or]

@[simp]
theorem yields_modify {f : σ → σ} {u : PUnit} {s s' : σ} :
  Yields (modify f : ExceptT Fault (StateM σ) PUnit) s u s' ↔ s' = f s
  := by
  constructor
  · intro h
    cases h
    rfl
  · rintro rfl
    rfl

@[simp]
theorem fails_modify {f : σ → σ} {s s' : σ} {fault : Fault} :
  ¬ Fails (modify f : ExceptT Fault (StateM σ) PUnit) s fault s'
  := nofun

theorem run_modify_bind (g : σ → σ) (f : PUnit → ExceptT Fault (StateM σ) β) (s : σ) :
  (modify g >>= f).run.run s = (f ⟨⟩).run.run (g s)
  := rfl

theorem yields_modify_bind {g : σ → σ} {f : PUnit → ExceptT Fault (StateM σ) β} {s s' : σ}
    {b : β} :
  Yields (modify g >>= f) s b s' ↔ Yields (f ⟨⟩) (g s) b s'
  := by
  simp only [yields_bind, yields_modify, exists_eq_left]
  constructor
  · rintro ⟨_, h⟩
    exact h
  · intro h
    use ⟨⟩

theorem fails_modify_bind {g : σ → σ} {f : PUnit → ExceptT Fault (StateM σ) β} {s s' : σ}
    {fault : Fault} :
  Fails (modify g >>= f) s fault s' ↔ Fails (f ⟨⟩) (g s) fault s'
  := by
  simp only [fails_bind, fails_modify, yields_modify, exists_eq_left, false_or]
  constructor
  · rintro ⟨_, h⟩
    exact h
  · intro h
    use ⟨⟩

/-! ### Failures -/

@[simp]
theorem yields_failAt {pos : Pos} {cause : Cause} {a : α} {s s' : σ} :
  ¬ Yields (failAt pos cause : ExceptT Fault (StateM σ) α) s a s'
  := nofun

/-- A failure keeps the state that it is raised in. -/
@[simp]
theorem fails_failAt {pos : Pos} {cause : Cause} {s s' : σ} {fault : Fault} :
  Fails (failAt pos cause : ExceptT Fault (StateM σ) α) s fault s'
    ↔ fault = { cause, pos } ∧ s' = s
  := by
  constructor
  · intro h
    cases h
    exact ⟨rfl, rfl⟩
  · rintro ⟨rfl, rfl⟩
    rfl

/-- A given result is the result, and the state stays. -/
@[simp]
theorem yields_liftM {e : Except Fault α} {a : α} {s s' : σ} :
  Yields (liftM e : ExceptT Fault (StateM σ) α) s a s' ↔ e = .ok a ∧ s' = s
  := by
  constructor
  · intro h
    cases e with
    | error fault => cases h
    | ok b =>
      cases h
      exact ⟨rfl, rfl⟩
  · rintro ⟨rfl, rfl⟩
    rfl

@[simp]
theorem yields_liftAt {pos : Pos} {e : Except Cause α} {a : α} {s s' : σ} :
  Yields (liftAt pos e : ExceptT Fault (StateM σ) α) s a s' ↔ e = .ok a ∧ s' = s
  := by
  cases e with
  | error cause => simp only [liftAt, yields_failAt, reduceCtorEq, false_and]
  | ok b => simp only [liftAt, yields_pure, Except.ok.injEq, eq_comm]

/-- A given cause becomes a fault at the position. -/
@[simp]
theorem fails_liftAt {pos : Pos} {e : Except Cause α} {s s' : σ} {fault : Fault} :
  Fails (liftAt pos e : ExceptT Fault (StateM σ) α) s fault s'
    ↔ ∃ cause, e = .error cause ∧ fault = { cause, pos } ∧ s' = s
  := by
  cases e with
  | error cause => simp [liftAt]
  | ok b => simp [liftAt]

/-- A failure is handled in the state that it left. -/
theorem run_tryCatch (x : ExceptT Fault (StateM σ) α) (h : Fault → ExceptT Fault (StateM σ) α)
    (s : σ) :
  (tryCatch x h : ExceptT Fault (StateM σ) α).run.run s = match x.run.run s with
    | (.ok a, m) => (.ok a, m)
    | (.error fault, m) => (h fault).run.run m
  := by
  rw [ExceptT.run_tryCatch, StateT.run_bind]
  rcases x.run.run s with ⟨fault | a, m⟩ <;> rfl

/-- A handler that always fails does not change how a computation succeeds. -/
theorem yields_tryCatch {x : ExceptT Fault (StateM σ) α}
    {h : Fault → ExceptT Fault (StateM σ) α} {a : α} {s s' : σ}
    (hfails : ∀ fault m a, ¬ Yields (h fault) m a s') :
  Yields (tryCatch x h) s a s' ↔ Yields x s a s'
  := by
  rw [Yields, run_tryCatch, Yields]
  rcases x.run.run s with ⟨fault | b, m⟩
  · constructor
    · intro hrun
      cases hfails fault m a hrun
    · intro hrun
      cases hrun
  · rfl

/-- What is handled still fails if the handler does. -/
theorem fails_tryCatch {x : ExceptT Fault (StateM σ) α} {h : Fault → ExceptT Fault (StateM σ) α}
    {fault : Fault} {s s' : σ} :
  Fails (tryCatch x h) s fault s'
    ↔ ∃ inner m, Fails x s inner m ∧ Fails (h inner) m fault s'
  := by
  rw [Fails, run_tryCatch]
  constructor
  · intro hrun
    rcases hx : x.run.run s with ⟨inner | b, m⟩
    · rw [hx] at hrun
      use inner, m, hx, hrun
    · rw [hx] at hrun
      cases hrun
  · rintro ⟨inner, m, hx, hrun⟩
    rw [Fails] at hx
    rw [hx]
    exact hrun

/-- A fault is given the file, unless it names one, and all else stays. -/
theorem run_inFile (file : String) (action : ExceptT Fault (StateM σ) α) (s : σ) :
  (inFile file action).run.run s = match action.run.run s with
    | (.ok a, m) => (.ok a, m)
    | (.error fault, m) => (.error (fault.inFile file), m)
  := run_tryCatch ..

@[simp]
theorem yields_inFile {file : String} {action : ExceptT Fault (StateM σ) α} {a : α} {s s' : σ} :
  Yields (inFile file action) s a s' ↔ Yields action s a s'
  := by
  apply yields_tryCatch
  intro fault m a h
  cases h

/-- A computation in a file fails where it fails without. -/
@[simp]
theorem fails_inFile {file : String} {action : ExceptT Fault (StateM σ) α} {s s' : σ}
    {fault : Fault} :
  Fails (inFile file action) s fault s'
    ↔ ∃ inner, Fails action s inner s' ∧ fault = inner.inFile file
  := by
  apply fails_tryCatch.trans
  constructor
  · rintro ⟨inner, m, hrun, hthrow⟩
    cases hthrow
    use inner, hrun
  · rintro ⟨inner, hrun, rfl⟩
    use inner, s', hrun
    rfl

/-! ### Objects of a build -/

/-- A change of one item that a projection does not see. -/
theorem map_modify_of_eq {f : α → α} {g : α → β} (h : ∀ a, g (f a) = g a) (items : List α)
    (place : Nat) :
  (items.modify place f).map g = items.map g
  := by
  apply List.ext_getElem?
  intro i
  rw [List.getElem?_map, List.getElem?_modify, List.getElem?_map, Option.map_eq_map,
    Option.map_map]
  split_ifs
  · simp only [Function.comp_def, h]
  · rfl

/-- A changed object is the change of what it was, if it exists. -/
theorem objectAt_modify_self {objects : List Object} {id : ObjId} (f : Object → Object)
    (h : id < objects.length) :
  objectAt (objects.modify id f) id = f (objectAt objects id)
  := by
  simp [objectAt, h]

/-- Other objects stay as they were. -/
theorem objectAt_modify_ne {objects : List Object} {id other : ObjId} (f : Object → Object)
    (h : id ≠ other) :
  objectAt (objects.modify id f) other = objectAt objects other
  := by
  simp [objectAt, h]

/-- An object with a number that was not given out is an empty one. -/
theorem objectAt_of_le {objects : List Object} {id : ObjId} (h : objects.length ≤ id) :
  objectAt objects id = default
  := by
  rw [objectAt, List.getElem?_eq_none h, Option.getD_none]

namespace Build

@[simp]
theorem length_modifyObject (build : Build) (id : ObjId) (f : Object → Object) :
  (build.modifyObject id f).objects.length = build.objects.length
  := List.length_modify ..

/-- The object of a changed number is the change of what it was. -/
theorem object_modifyObject_self {build : Build} {id : ObjId} (f : Object → Object)
    (h : id < build.objects.length) :
  (build.modifyObject id f).object id = f (build.object id)
  := objectAt_modify_self f h

/-- The objects of all other numbers stay. -/
@[simp]
theorem object_modifyObject_ne {build : Build} {id other : ObjId} (f : Object → Object)
    (h : id ≠ other) :
  (build.modifyObject id f).object other = build.object other
  := objectAt_modify_ne f h

theorem object_of_le {build : Build} {id : ObjId} (h : build.objects.length ≤ id) :
  build.object id = default
  := objectAt_of_le h

/-- Changing an object that does not exist changes nothing. -/
theorem modifyObject_of_le {build : Build} {id : ObjId} (f : Object → Object)
    (h : build.objects.length ≤ id) :
  build.modifyObject id f = build
  := by
  rw [modifyObject, List.modify_eq_self h]

/-- Putting back what is there changes nothing. -/
theorem modifyObject_object (build : Build) (id : ObjId) :
  (build.modifyObject id fun _ => build.object id) = build
  := by
  have hobjects : (build.objects.modify id fun _ => build.object id) = build.objects := by
    apply List.ext_getElem?
    intro i
    rw [List.getElem?_modify]
    by_cases hi : id = i
    · subst hi
      cases hfind : build.objects[id]? with
      | none => rfl
      | some object => simp [Build.object, objectAt, hfind]
    · simp [hi]
  rw [modifyObject, hobjects]

/-- Two changes of an object in turn. -/
theorem modifyObject_modifyObject (build : Build) (id : ObjId) (f g : Object → Object) :
  (build.modifyObject id f).modifyObject id g = build.modifyObject id fun object => g (f object)
  := by
  rw [modifyObject, modifyObject, modifyObject, List.modify_modify_eq]
  rfl

/-- A change of an object changes no other one, and nothing if the object does not exist. -/
theorem object_modifyObject_cases (build : Build) (id : ObjId) (f : Object → Object)
    (other : ObjId) :
  (build.modifyObject id f).object other = build.object other
    ∨ other = id ∧ (build.modifyObject id f).object other = f (build.object id)
  := by
  by_cases hother : id = other
  · subst hother
    by_cases hid : id < build.objects.length
    · exact .inr ⟨rfl, object_modifyObject_self f hid⟩
    · rw [modifyObject_of_le f (Nat.le_of_not_lt hid)]
      exact .inl rfl
  · exact .inl (object_modifyObject_ne f hother)

/-- What a change of an object keeps is the same whether or not the object exists. -/
theorem congr_modifyObject {α : Type} (build : Build) (id : ObjId) {f : Object → Object}
    {p : Object → α} (h : p (f (build.object id)) = p (build.object id)) :
  p ((build.modifyObject id f).object id) = p (build.object id)
  := by
  obtain hsame | ⟨_, hchanged⟩ := build.object_modifyObject_cases id f id
  · rw [hsame]
  · rw [hchanged, h]

end Build

namespace Step

variable {γ : Type}

@[simp]
theorem yields_object {id : ObjId} {object : Object} {b b' : Build} :
  Yields (Step.object id) b object b' ↔ object = b.object id ∧ b' = b
  := by
  rw [Step.object, yields_get_bind, yields_pure]

@[simp]
theorem fails_object {id : ObjId} {fault : Fault} {b b' : Build} :
  ¬ Fails (Step.object id) b fault b'
  := nofun

@[simp]
theorem yields_modifyObject {id : ObjId} {f : Object → Object} {u : Unit} {b b' : Build} :
  Yields (Step.modifyObject id f) b u b' ↔ b' = b.modifyObject id f
  := yields_modify

@[simp]
theorem yields_warn {id : ObjId} {pos : Pos} {text : String} {u : Unit} {b b' : Build} :
  Yields (Step.warn id pos text) b u b' ↔ b' = b.warn id pos text
  := yields_modify

/-- An evaluation changes nothing in a build but its memo. -/
@[simp]
theorem yields_evaluate {action : Eval γ} {a : γ} {b b' : Build} :
  Yields (Step.evaluate action) b a b' ↔ ∃ memo, Yields action b.memo a memo ∧ b' = { b with memo }
  := by
  rw [Yields, Step.evaluate, ExceptT.run_mk, StateT.run]
  constructor
  · intro h
    obtain ⟨hresult, rfl⟩ := Prod.ext_iff.mp h
    use (action.run.run b.memo).2
    exact ⟨Prod.ext hresult rfl, rfl⟩
  · rintro ⟨memo, h, rfl⟩
    rw [Yields] at h
    simp only [h]

/-- An evaluation that fails keeps in the memo what was evaluated before. -/
@[simp]
theorem fails_evaluate {action : Eval γ} {fault : Fault} {b b' : Build} :
  Fails (Step.evaluate action) b fault b'
    ↔ ∃ memo, Fails action b.memo fault memo ∧ b' = { b with memo }
  := by
  rw [Fails, Step.evaluate, ExceptT.run_mk, StateT.run]
  constructor
  · intro h
    obtain ⟨hresult, rfl⟩ := Prod.ext_iff.mp h
    use (action.run.run b.memo).2
    exact ⟨Prod.ext hresult rfl, rfl⟩
  · rintro ⟨memo, h, rfl⟩
    rw [Fails] at h
    simp only [h]

/-- An evaluation in an object is one at the site of that object. -/
@[simp]
theorem yields_evaluateIn {id : ObjId} {action : Site → Eval γ} {a : γ} {b b' : Build} :
  Yields (Step.evaluateIn id action) b a b'
    ↔ ∃ memo, Yields (action (b.site id)) b.memo a memo ∧ b' = { b with memo }
  := by
  rw [Step.evaluateIn, yields_get_bind, yields_evaluate]

@[simp]
theorem fails_evaluateIn {id : ObjId} {action : Site → Eval γ} {fault : Fault} {b b' : Build} :
  Fails (Step.evaluateIn id action) b fault b'
    ↔ ∃ memo, Fails (action (b.site id)) b.memo fault memo ∧ b' = { b with memo }
  := by
  rw [Step.evaluateIn, fails_get_bind, fails_evaluate]

theorem run_object_bind (id : ObjId) (f : Object → Step γ) (b : Build) :
  (Step.object id >>= f).run.run b = (f (b.object id)).run.run b
  := rfl

/-- Reading an object only passes it on. -/
theorem yields_object_bind {id : ObjId} {f : Object → Step γ} {a : γ} {b b' : Build} :
  Yields (Step.object id >>= f) b a b' ↔ Yields (f (b.object id)) b a b'
  := by
  simp only [yields_bind, yields_object, and_assoc, exists_and_left, exists_eq_left]

theorem fails_object_bind {id : ObjId} {f : Object → Step γ} {fault : Fault} {b b' : Build} :
  Fails (Step.object id >>= f) b fault b' ↔ Fails (f (b.object id)) b fault b'
  := by
  simp only [fails_bind, fails_object, yields_object, and_assoc, exists_and_left, exists_eq_left,
    false_or]

/-- Naming the file of failures does not change successes. -/
@[simp]
theorem yields_inObject {id : ObjId} {action : Step γ} {a : γ} {b b' : Build} :
  Yields (Step.inObject id action) b a b' ↔ Yields action b a b'
  := by
  rw [Step.inObject, yields_object_bind, yields_inFile]

/-- A failure in an object names the file that the object had at the start. -/
@[simp]
theorem fails_inObject {id : ObjId} {action : Step γ} {fault : Fault} {b b' : Build} :
  Fails (Step.inObject id action) b fault b'
    ↔ ∃ inner, Fails action b inner b' ∧ fault = inner.inFile (b.object id).file
  := by
  rw [Step.inObject, fails_object_bind, fails_inFile]

end Step

end SpinHub
