import Mathlib
import SpinHub.Proofs.Runs

/-!
# Evaluation is stable

An expression that has been evaluated evaluates to the same value again, and without a change
to the memo, when the memo has grown in between and when symbols have been added to the
objects. Only the label that local labels belong to has to be the same.
-/

namespace SpinHub

/-! ### Memos -/

namespace Memo

/-- What is done in one memo is done in the other, with the same value. -/
def Grows (memo memo' : Memo) : Prop :=
  ∀ id v, memo.status id = .done v → memo'.status id = .done v

theorem Grows.refl (memo : Memo) :
  Grows memo memo
  := fun _ _ h => h

theorem Grows.trans {a b c : Memo} (hab : Grows a b) (hbc : Grows b c) :
  Grows a c
  := fun id v h => hbc id v (hab id v h)

/-- What is recorded for a constant is its status. -/
theorem status_record_self (memo : Memo) (id : ConId) (status : Status) :
  (memo.record id status).status id = status
  := by
  simp [Memo.status, Memo.record]

/-- The status of other constants stays. -/
theorem status_record_ne {memo : Memo} {id other : ConId} (status : Status) (h : other ≠ id) :
  (memo.record id status).status other = memo.status other
  := by
  have lookup_filter : ∀ entries : Memo,
      (entries.filter (·.1 ≠ id)).lookup other = entries.lookup other := by
    intro entries
    induction entries with
    | nil => rfl
    | cons entry rest ih =>
      by_cases hentry : entry.1 = id
      · have hother : (other == entry.1) = false := by
          rw [hentry]
          exact beq_false_of_ne h
        rw [List.filter_cons_of_neg (by simpa using hentry), ih, List.lookup_cons, hother]
      · rw [List.filter_cons_of_pos (by simpa using hentry), List.lookup_cons, List.lookup_cons, ih]
  rw [Memo.status, Memo.record, List.lookup_cons, beq_false_of_ne h, lookup_filter, Memo.status]

/-- Recording a constant that was not done keeps all that was. -/
theorem Grows.record {memo : Memo} {id : ConId} (status : Status)
    (h : ∀ v, memo.status id ≠ .done v) :
  Grows memo (memo.record id status)
  := by
  intro other v hother
  have hne : other ≠ id := by
    rintro rfl
    apply h v hother
  rw [status_record_ne status hne, hother]

end Memo

/-! ### Computations that repeat -/

variable {α β : Type}

/-- What `x` yields, `x'` yields from every memo that has grown since, and leaves it alone. -/
def Repeats (x x' : Eval α) : Prop :=
  ∀ memo v memo', Yields x memo v memo' →
    Memo.Grows memo memo' ∧ ∀ later, Memo.Grows memo' later → Yields x' later v later

theorem Repeats.pure (a : α) :
  Repeats (pure a) (pure a)
  := by
  intro memo v memo' h
  obtain ⟨rfl, rfl⟩ := yields_pure.mp h
  use Memo.Grows.refl memo'
  intro later _
  apply yields_pure.mpr ⟨rfl, rfl⟩

/-- What fails yields nothing that could be repeated. -/
theorem Repeats.failAt (pos : Pos) (cause : Cause) (x' : Eval α) :
  Repeats (failAt pos cause) x'
  := by
  intro memo v memo' h
  cases yields_failAt h

theorem Repeats.liftAt (pos : Pos) (e : Except Cause α) :
  Repeats (liftAt pos e) (liftAt pos e)
  := by
  cases e with
  | error cause => apply Repeats.failAt
  | ok a => apply Repeats.pure

/-- Evaluations that repeat do so in turn. -/
theorem Repeats.bind {x x' : Eval α} {f f' : α → Eval β} (hx : Repeats x x')
    (hf : ∀ a, Repeats (f a) (f' a)) :
  Repeats (x >>= f) (x' >>= f')
  := by
  intro memo v memo' h
  obtain ⟨a, middle, ha, hv⟩ := yields_bind.mp h
  obtain ⟨hfirst, hagain⟩ := hx _ _ _ ha
  obtain ⟨hsecond, hlast⟩ := hf a _ _ _ hv
  use hfirst.trans hsecond
  intro later hlater
  apply yields_bind.mpr
  use a, later, hagain later (hsecond.trans hlater)
  apply hlast later hlater

/-- An evaluation that repeats for each item repeats for all. -/
theorem Repeats.mapM {f f' : α → Eval β} (xs : List α) (h : ∀ a, Repeats (f a) (f' a)) :
  Repeats (xs.mapM f) (xs.mapM f')
  := by
  induction xs with
  | nil => apply Repeats.pure
  | cons x xs ih =>
    rw [List.mapM_cons, List.mapM_cons]
    apply Repeats.bind (h x)
    intro b
    apply Repeats.bind ih
    intro bs
    apply Repeats.pure

/-- What a computation yields that repeats, it yields at each of its items in the end. -/
theorem forall₂_of_mapM {f : α → Eval β} (h : ∀ a, Repeats (f a) (f a)) {items : List α}
    {results : List β} {memo memo' : Memo} (hrun : Yields (items.mapM f) memo results memo') :
  List.Forall₂ (fun a b => Yields (f a) memo' b memo') items results
  := by
  induction items generalizing memo results with
  | nil =>
    obtain ⟨rfl, _⟩ := yields_pure.mp hrun
    apply List.Forall₂.nil
  | cons a items ih =>
    rw [List.mapM_cons] at hrun
    obtain ⟨b, middle, hb, hrun⟩ := yields_bind.mp hrun
    obtain ⟨rest, last, hrest, hpure⟩ := yields_bind.mp hrun
    obtain ⟨rfl, rfl⟩ := yields_pure.mp hpure
    apply List.Forall₂.cons
    · apply (h a _ _ _ hb).2
      apply (Repeats.mapM items h _ _ _ hrest).1
    · apply ih hrest

/-! ### Objects that grow -/

/-- Symbols may have been added to an object, but none has changed that constants can name, nor
have its DAT entries and the size of its table. -/
structure Object.Grows (old new : Object) : Prop where
  names : old.names <+: new.names
  cons : new.cons = old.cons
  labels : old.labels <+: new.labels
  subs : new.subs = old.subs
  hubAddress : new.hubAddress = old.hubAddress
  dat : new.dat = old.dat
  headerSize : new.headerSize = old.headerSize

theorem Object.Grows.refl (object : Object) :
  object.Grows object
  := ⟨List.prefix_rfl, rfl, List.prefix_rfl, rfl, rfl, rfl, rfl⟩

theorem Object.Grows.trans {a b c : Object} (hab : a.Grows b) (hbc : b.Grows c) :
  a.Grows c
  where
  names := hab.names.trans hbc.names
  cons := hbc.cons.trans hab.cons
  labels := hab.labels.trans hbc.labels
  subs := hbc.subs.trans hab.subs
  hubAddress := hbc.hubAddress.trans hab.hubAddress
  dat := hbc.dat.trans hab.dat
  headerSize := hbc.headerSize.trans hab.headerSize

/-- What a list of names leads to, every list that it begins leads to. -/
theorem lookup_of_prefix {entries entries' : List (String × α)} {key : String} {a : α}
    (h : entries <+: entries') (ha : entries.lookup key = some a) :
  entries'.lookup key = some a
  := by
  obtain ⟨rest, rfl⟩ := h
  rw [List.lookup_append, ha, Option.some_or]

theorem getElem?_of_prefix {entries entries' : List α} {i : Nat} {a : α}
    (h : entries <+: entries') (ha : entries[i]? = some a) :
  entries'[i]? = some a
  := by
  obtain ⟨rest, rfl⟩ := h
  rw [List.getElem?_append_left (List.getElem?_eq_some_iff.mp ha).1, ha]

/-- A name that constant expressions can use. -/
def Meaning.IsConstant : Meaning → Prop
  | .con _ _ _ | .label _ | .sub _ => True
  | _ => False

/-- A place keeps its meaning in an object that grows, if the meaning is constant. -/
theorem Object.Grows.meaning {old new : Object} (h : old.Grows new) {id : ObjId}
    {ref : SymbolRef} {meaning : Meaning} (hold : old.meaning? id ref = some meaning)
    (hconstant : meaning.IsConstant) :
  new.meaning? id ref = some meaning
  := by
  cases ref with
  | con i => rwa [Object.meaning?, h.cons]
  | label i =>
    obtain ⟨label, hlabel, rfl⟩ := Option.map_eq_some_iff.mp hold
    rw [Object.meaning?, getElem?_of_prefix h.labels hlabel, Option.map_some]
  | var i =>
    obtain ⟨var, _, rfl⟩ := Option.map_eq_some_iff.mp hold
    cases hconstant
  | sub i => rwa [Object.meaning?, h.subs]
  | method i =>
    obtain ⟨method, _, rfl⟩ := Option.map_eq_some_iff.mp hold
    cases hconstant

/-- Every object has grown, and local labels belong to the same labels as before. -/
structure ObjectsGrow (objects objects' : List Object) : Prop where
  grows : ∀ id, (objectAt objects id).Grows (objectAt objects' id)
  latest : ∀ id, (objectAt objects' id).latestLabel = (objectAt objects id).latestLabel

theorem ObjectsGrow.refl (objects : List Object) :
  ObjectsGrow objects objects
  := ⟨fun _ => Object.Grows.refl _, fun _ => rfl⟩

/-- A name keeps its meaning as objects grow, if the meaning is constant. -/
theorem lookup_of_grows {objects objects' : List Object} (h : ObjectsGrow objects objects')
    {id : ObjId} {scope : Scope} {name : String} {meaning : Meaning}
    (hold : lookup? objects id scope name = some meaning) (hconstant : meaning.IsConstant) :
  lookup? objects' id scope name = some meaning
  := by
  have hkey : (objectAt objects' id).key name = (objectAt objects id).key name := by
    rw [Object.key, Object.key, h.latest]
  rw [lookup?] at hold ⊢
  simp only [hkey]
  split at hold
  · cases hold
    cases hconstant
  · split at hold
    · rename_i ref href
      rw [Object.find?, lookup_of_prefix (h.grows id).names href]
      apply (h.grows id).meaning hold hconstant
    · obtain ⟨file, _, rfl⟩ := Option.map_eq_some_iff.mp hold
      cases hconstant

/-! ### Expressions -/

namespace Site

/-- The same place in objects that have grown. -/
structure Grows (site site' : Site) : Prop where
  objects : ObjectsGrow site.objects site'.objects
  obj : site'.obj = site.obj
  scope : site'.scope = site.scope
  here : site'.here = site.here

theorem Grows.refl (site : Site) :
  site.Grows site
  := ⟨ObjectsGrow.refl _, rfl, rfl, rfl⟩

/-- A reader leaves the constant done, and another one finds it so. -/
structure ReadsAgain (readCon readCon' : ConReader) : Prop where
  leaves : ∀ {owner index con memo v memo'}, Yields (readCon owner index con) memo v memo' →
    Memo.Grows memo memo' ∧ memo'.status (owner, index) = .done v
  finds : ∀ {owner index memo v} (con : Con), memo.status (owner, index) = .done v →
    Yields (readCon' owner index con) memo v memo

/-- What a reader reads, the other one reads again. -/
theorem ReadsAgain.repeats {readCon readCon' : ConReader} (h : ReadsAgain readCon readCon')
    (owner : ObjId) (index : Nat) (con : Con) :
  Repeats (readCon owner index con) (readCon' owner index con)
  := by
  intro memo v memo' hread
  obtain ⟨hgrows, hdone⟩ := h.leaves hread
  use hgrows
  intro later hlater
  apply h.finds con (hlater _ _ hdone)

/-- A lookup and what is done with its result. A meaning that is not a constant may have
changed, so the computation has to fail on it. -/
theorem Grows.lookupIn {site site' : Site} (h : site.Grows site') (id : ObjId) (scope : Scope)
    (name : String) (pos : Pos) {f f' : Meaning → Eval α}
    (hf : ∀ meaning x', (meaning.IsConstant → x' = f' meaning) → Repeats (f meaning) x') :
  Repeats (site.lookupIn id scope name pos >>= f) (site'.lookupIn id scope name pos >>= f')
  := by
  cases hlookup : SpinHub.lookup? site.objects id scope name with
  | none =>
    intro memo v memo' hv
    rw [Site.lookupIn, hlookup] at hv
    obtain ⟨_, _, hfail, _⟩ := yields_bind.mp hv
    cases yields_failAt hfail
  | some meaning =>
    have hold : (site.lookupIn id scope name pos : Eval Meaning) = pure meaning := by
      rw [Site.lookupIn, hlookup]
    rw [hold, pure_bind]
    apply hf
    intro hm
    rw [Site.lookupIn, lookup_of_grows h.objects hlookup hm, pure_bind]

/-- The value of a name repeats at a site that has grown. -/
theorem nameValue_repeats {site site' : Site} (h : site.Grows site') {readCon readCon' : ConReader}
    (hread : ReadsAgain readCon readCon') (name : String) (pos : Pos) :
  Repeats (site.nameValue readCon name pos) (site'.nameValue readCon' name pos)
  := by
  unfold nameValue lookup
  rw [h.obj, h.scope, h.here]
  apply h.lookupIn
  intro meaning x' hx
  cases meaning with
  | label label =>
    rw [hx trivial]
    cases site.here with
    | none => apply Repeats.pure
    | some here =>
      simp only
      split_ifs
      · apply Repeats.failAt
      · apply Repeats.pure
  | con owner index con =>
    rw [hx trivial]
    apply hread.repeats
  | slot | sub | var | method | file => apply Repeats.failAt

/-- The value of a constant of another object repeats at a site that has grown. -/
theorem memberValue_repeats {site site' : Site} (h : site.Grows site')
    {readCon readCon' : ConReader} (hread : ReadsAgain readCon readCon') (object name : String)
    (pos : Pos) :
  Repeats (site.memberValue readCon object name pos) (site'.memberValue readCon' object name pos)
  := by
  unfold memberValue lookup
  rw [h.obj, h.scope]
  apply h.lookupIn
  intro meaning x' hx
  cases meaning with
  | sub sub =>
    rw [hx trivial]
    apply h.lookupIn
    intro member y' hy
    cases member with
    | con owner index con =>
      rw [hy trivial]
      apply hread.repeats
    | slot | label | sub | var | method | file => apply Repeats.failAt
  | slot | con | label | var | method | file => apply Repeats.failAt

theorem labelNamed_repeats {site site' : Site} (h : site.Grows site') (name : String) (pos : Pos) :
  Repeats (site.labelNamed name pos) (site'.labelNamed name pos)
  := by
  unfold labelNamed lookup
  rw [h.obj, h.scope]
  apply h.lookupIn
  intro meaning x' hx
  cases meaning with
  | label label =>
    rw [hx trivial]
    apply Repeats.pure
  | slot | con | sub | var | method | file => apply Repeats.failAt

/-- The label that an expression names is found again. -/
theorem labelOf_repeats {site site' : Site} (h : site.Grows site') (e : Exp) :
  Repeats (site.labelOf e) (site'.labelOf e)
  := by
  unfold labelOf
  cases e.simpleName? with
  | none => apply Repeats.failAt
  | some name => apply labelNamed_repeats h

/-- An expression repeats if reading constants does. -/
theorem evalWith_repeats {site site' : Site} (h : site.Grows site') {readCon readCon' : ConReader}
    (hread : ReadsAgain readCon readCon') (e : Exp) :
  Repeats (site.evalWith readCon e) (site'.evalWith readCon' e)
  := by
  have hub : site'.object.hubAddress = site.object.hubAddress := by
    rw [Site.object, Site.object, h.obj]
    apply (h.objects.grows site.obj).hubAddress
  induction e using Site.evalWith.induct site with
  | case1 pos w => apply Repeats.pure
  | case2 pos x => apply Repeats.pure
  | case3 pos name => apply nameValue_repeats h hread
  | case4 pos name => apply nameValue_repeats h hread
  | case5 pos object name => apply memberValue_repeats h hread
  | case6 pos operand =>
    apply Repeats.bind (labelOf_repeats h operand)
    intro label
    apply Repeats.pure
  | case7 pos op operand hop ih =>
    rw [evalWith, evalWith]
    · apply Repeats.bind ih
      intro v
      apply Repeats.liftAt
    · exact hop
    · exact hop
  | case8 pos op left right ihl ihr =>
    apply Repeats.bind ihl
    intro l
    apply Repeats.bind ihr
    intro r
    apply Repeats.liftAt
  | case9 pos reg here hhere =>
    rw [evalWith, evalWith, h.here, hhere]
    apply Repeats.pure
  | case10 pos reg hhere =>
    rw [evalWith, evalWith, h.here, hhere]
    apply Repeats.failAt
  | case11 pos reg bits hbits =>
    rw [evalWith]
    · apply Repeats.failAt
    · exact hbits
  | case12 pos conversion operand ih =>
    apply Repeats.bind ih
    intro v
    apply Repeats.liftAt
  | case13 pos operand ih => apply ih
  | case14 pos here hhere =>
    rw [evalWith, evalWith, h.here, hhere]
    apply Repeats.pure
  | case15 pos hhere =>
    rw [evalWith, evalWith, h.here, hhere]
    apply Repeats.failAt
  | case16 pos name =>
    rw [evalWith, evalWith, hub]
    apply Repeats.bind (labelNamed_repeats h name pos)
    intro label
    apply Repeats.pure
  | case17 e =>
    rw [evalWith]
    · apply Repeats.failAt
    all_goals assumption

end Site

/-! ### Constants -/

/-- Reading a constant leaves it done, and from then on it is only looked up. -/
theorem conValueWithin_readsAgain {objects objects' : List Object}
    (h : ObjectsGrow objects objects') (depth depth' : Nat) :
  Site.ReadsAgain (conValueWithin objects depth) (conValueWithin objects' (depth' + 1))
  := by
  have finds {owner index memo v} (con : Con) (hdone : Memo.status memo (owner, index) = .done v) :
      Yields (conValueWithin objects' (depth' + 1) owner index con) memo v memo := by
    rw [conValueWithin, readThrough, yields_get_bind, hdone]
    apply yields_pure.mpr ⟨rfl, rfl⟩
  refine ⟨?_, finds⟩
  induction depth with
  | zero =>
    intro owner index con memo v memo' hv
    cases yields_failAt hv
  | succ depth ih =>
    intro owner index con memo v memo' hv
    rw [conValueWithin, readThrough, yields_get_bind] at hv
    cases hstatus : Memo.status memo (owner, index) with
    | done w =>
      rw [hstatus] at hv
      obtain ⟨rfl, rfl⟩ := yields_pure.mp hv
      exact ⟨Memo.Grows.refl _, hstatus⟩
    | evaluating =>
      rw [hstatus] at hv
      cases yields_failAt hv
    | pending =>
      rw [hstatus] at hv
      replace hv := yields_modify_bind.mp hv
      rw [yields_tryCatch (by
        intro fault m a h
        cases yields_modify_bind.mp h)] at hv
      obtain ⟨w, middle, hw, hv⟩ := yields_bind.mp hv
      rw [yields_modify_bind, yields_pure] at hv
      obtain ⟨rfl, rfl⟩ := hv
      -- the constant is marked, its expression is evaluated, and it is done
      have hmark : Memo.Grows memo (memo.record (owner, index) .evaluating) := by
        apply Memo.Grows.record
        intro v
        rw [hstatus]
        nofun
      have hmiddle : Memo.Grows (memo.record (owner, index) .evaluating) middle := by
        have hsite : Site.Grows { objects, obj := owner } { objects := objects', obj := owner } :=
          ⟨h, rfl, rfl, rfl⟩
        exact (Site.evalWith_repeats hsite ⟨ih, finds⟩ con.value _ _ _ hw).1
      refine ⟨?_, Memo.status_record_self ..⟩
      intro other w hother
      have hne : other ≠ (owner, index) := by
        rintro rfl
        cases hstatus.symm.trans hother
      rw [Memo.status_record_ne _ hne]
      apply hmark.trans hmiddle other w hother

namespace Site

variable {site site' : Site}

/-- An expression that has a value has it again once symbols were added. -/
theorem eval_repeats (h : site.Grows site') (e : Exp) :
  Repeats (site.eval e) (site'.eval e)
  := evalWith_repeats h (conValueWithin_readsAgain h.objects _ _) e

/-- An expression that is a whole number is the same number again. -/
theorem evalInt_repeats (h : site.Grows site') (e : Exp) :
  Repeats (site.evalInt e) (site'.evalInt e)
  := by
  apply Repeats.bind (eval_repeats h e)
  intro v
  apply Repeats.bind (Repeats.liftAt e.pos v.toWord)
  intro w
  apply Repeats.pure

theorem evalIntOr_repeats (h : site.Grows site') (default : Int) (e : Option Exp) :
  Repeats (site.evalIntOr default e) (site'.evalIntOr default e)
  := by
  cases e with
  | none => apply Repeats.pure
  | some e => apply evalInt_repeats h e

end Site

end SpinHub
