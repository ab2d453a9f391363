import Mathlib
import SpinHub.Proofs.StableEvaluation
import SpinHub.Proofs.Bytes

/-!
# Memoised constants

Evaluation remembers the constants it has finished and marks those it is in the middle of.
Here it is compared with an evaluation that remembers nothing and that carries the constants
it is inside of as a list. Both give the same results, from every memo that evaluations have
filled, so no result depends on what was evaluated before. The list also bounds the depth of
evaluation, on circular constants too.
-/

namespace SpinHub

open Site (ConReader)

/-! ### The constants of the objects -/

/-- The constant stands in its object, at its place. -/
def Listed (objects : List Object) (owner : ObjId) (index : Nat) (con : Con) : Prop :=
  (objectAt objects owner).cons[index]? = some con

/-- All constants of the objects. -/
def conIds (objects : List Object) : List ConId :=
  (List.range objects.length).flatMap fun owner =>
    (List.range (objectAt objects owner).cons.length).map fun index => (owner, index)

/-- How many constants are not in a list. -/
def remaining (objects : List Object) (active : List ConId) : Nat :=
  ((conIds objects).filter (· ∉ active)).length

variable {objects : List Object} {base memo memo' : Memo} {active : List ConId} {α β : Type}

/-- A listed constant is one of all constants. -/
theorem Listed.mem_conIds {owner : ObjId} {index : Nat} {con : Con}
    (h : Listed objects owner index con) :
  (owner, index) ∈ conIds objects
  := by
  have howner : owner < objects.length := by
    by_contra hout
    have hnone : objects[owner]? = none := by simpa using hout
    rw [Listed, objectAt, hnone] at h
    cases h
  have hindex : index < (objectAt objects owner).cons.length :=
    (List.getElem?_eq_some_iff.mp h).1
  simp [conIds, howner, hindex]

/-- A name that stands for a constant stands for one that is listed. -/
theorem listed_of_lookup {id owner : ObjId} {scope : Scope} {name : String} {index : Nat}
    {con : Con} (h : lookup? objects id scope name = some (.con owner index con)) :
  Listed objects owner index con
  := by
  rw [lookup?] at h
  split at h
  · cases h
  · split at h
    · rename_i ref _
      cases ref with
      | con i =>
        obtain ⟨found, hfound, heq⟩ := Option.map_eq_some_iff.mp h
        cases heq
        exact hfound
      | label i | var i | sub i | method i =>
        obtain ⟨_, _, heq⟩ := Option.map_eq_some_iff.mp h
        cases heq
    · obtain ⟨_, _, heq⟩ := Option.map_eq_some_iff.mp h
      cases heq

/-- There are as many constants as stand in all objects together. -/
theorem length_conIds (objects : List Object) :
  (conIds objects).length = total (objects.map (·.cons.length))
  := by
  have hmap : (List.range objects.length).map (fun owner => (objectAt objects owner).cons.length)
      = objects.map (·.cons.length) := by
    apply List.ext_getElem
    · simp
    · intro i hi _
      have hi' : i < objects.length := by simpa using hi
      simp [objectAt, hi']
  rw [conIds, List.length_flatMap, total_eq_sum, ← hmap]
  simp

/-- Reading one more constant leaves fewer that are not being read. -/
theorem remaining_cons {id : ConId} (hid : id ∈ conIds objects) (hactive : id ∉ active) :
  remaining objects (id :: active) < remaining objects active
  := by
  have hfilter : (conIds objects).filter (· ∉ id :: active)
      = ((conIds objects).filter (· ∉ active)).filter (· ≠ id) := by
    rw [List.filter_filter]
    apply List.filter_congr
    intro other _
    simp
  rw [remaining, remaining, hfilter, List.length_filter_lt_length_iff_exists]
  use id
  simp [hid, hactive]

/-! ### Readers of constants -/

/-- Reads constants inside each other, as deep as it is told, and leaves those that are deeper
to `bottom`. -/
def readersWithin (objects : List Object) (bottom : ConReader) : Nat → ConReader
  | 0 => bottom
  | depth + 1 => readThrough objects (readersWithin objects bottom depth)

/-- A reader of a depth is the reader of depth 0, so many levels below. -/
theorem conValueWithin_eq (objects : List Object) (depth : Nat) :
  conValueWithin objects depth = readersWithin objects (conValueWithin objects 0) depth
  := by
  induction depth with
  | zero => rfl
  | succ depth ih => rw [readersWithin, ← ih, conValueWithin]

/-- The reader is deep enough to read all constants inside each other that are not in the
list. -/
def Deep (objects : List Object) (active : List ConId) (reader : ConReader) : Prop :=
  ∃ bottom depth, remaining objects active < depth ∧ reader = readersWithin objects bottom depth

/-- The reader that programs use is deep enough for all constants. -/
theorem Deep.conValue (site : Site) :
  Deep site.objects [] site.conValue
  := by
  refine ⟨conValueWithin site.objects 0, total (site.objects.map (·.cons.length)) + 1, ?_, ?_⟩
  · rw [← length_conIds, Nat.lt_succ_iff]
    apply List.length_filter_le
  · rw [Site.conValue, conValueWithin_eq]

/-- A deep reader is deep enough inside every constant that is left to read. -/
theorem Deep.exists_inner {reader : ConReader} (h : Deep objects active reader) :
  ∃ inner, reader = readThrough objects inner
    ∧ ∀ id, id ∈ conIds objects → id ∉ active → Deep objects (id :: active) inner
  := by
  obtain ⟨bottom, depth, hdepth, rfl⟩ := h
  cases depth with
  | zero => omega
  | succ depth =>
    use readersWithin objects bottom depth, rfl
    intro id hid hactive
    have hless := remaining_cons hid hactive
    exact ⟨bottom, depth, by omega, rfl⟩

/-- Reads a constant without remembering any. Those in `active` are being read, and what is in
`base` is known from the start. -/
def uncached (objects : List Object) (base : Memo) (active : List ConId) : ConReader :=
  fun owner index con =>
    match base.status (owner, index) with
    | .done v => pure v
    | .evaluating => failAt con.name.pos (.circularReference con.name.name)
    | .pending =>
      if h : (owner, index) ∈ conIds objects ∧ (owner, index) ∉ active then
        have := remaining_cons h.1 h.2
        let site : Site := { objects, obj := owner }
        inFile (objectAt objects owner).file
          (site.evalWith (uncached objects base ((owner, index) :: active)) con.value)
      else failAt con.name.pos (.circularReference con.name.name)
termination_by remaining objects active

/-- A constant that is known from the start is not read again. -/
theorem uncached_done {owner : ObjId} {index : Nat} {v : Value} (con : Con)
    (h : base.status (owner, index) = .done v) :
  uncached objects base active owner index con = pure v
  := by
  rw [uncached, h]

/-- A constant that is being read is circular. -/
theorem uncached_active {owner : ObjId} {index : Nat} (con : Con)
    (hdone : ∀ v, base.status (owner, index) ≠ .done v)
    (h : base.status (owner, index) = .evaluating ∨ (owner, index) ∈ active) :
  uncached objects base active owner index con
    = failAt con.name.pos (.circularReference con.name.name)
  := by
  rw [uncached]
  cases hstatus : base.status (owner, index) with
  | done v => exact absurd hstatus (hdone v)
  | evaluating => rfl
  | pending =>
    rw [hstatus] at h
    have hactive : (owner, index) ∈ active := by simpa using h
    simp [hactive]

/-- Any other constant is evaluated, with the constants in it read inside it. -/
theorem uncached_pending {owner : ObjId} {index : Nat} {con : Con}
    (hbase : base.status (owner, index) = .pending) (hlisted : Listed objects owner index con)
    (hactive : (owner, index) ∉ active) :
  uncached objects base active owner index con
    = inFile (objectAt objects owner).file (Site.evalWith (uncached objects base
        ((owner, index) :: active)) { objects, obj := owner } con.value)
  := by
  rw [uncached, hbase]
  simp [hlisted.mem_conIds, hactive]

/-! ### Memos that evaluations have filled -/

/-- None of the constants is done. -/
def Memo.Open (memo : Memo) (active : List ConId) : Prop :=
  ∀ id ∈ active, ∀ v, memo.status id ≠ .done v

theorem Memo.Open.of_grows (h : memo'.Open active) (hgrows : memo.Grows memo') :
  memo.Open active
  := by
  intro id hid v hdone
  apply h id hid v (hgrows id v hdone)

/-- The memo marks the constants of `base` and of `active`, and each value in it is the one that
is found without a memo, inside any constants that are not done. -/
structure Sound (objects : List Object) (base : Memo) (active : List ConId) (memo : Memo) :
    Prop where
  grows : base.Grows memo
  marks : ∀ id, memo.status id = .evaluating ↔ base.status id = .evaluating ∨ id ∈ active
  values : ∀ owner index con v, Listed objects owner index con →
    memo.status (owner, index) = .done v → ∀ inside, memo.Open inside →
    ∀ s, Yields (uncached objects base inside owner index con) s v s

/-- How a computation that reads constants ends: every reader that is deep enough gives this
result and this memo, the result is the one without a memo, and a value would be found inside
any other constants that are not done. -/
structure Ending (objects : List Object) (base : Memo) (active : List ConId)
    (x : ConReader → Eval α) (memo : Memo) (result : Except Fault α) (memo' : Memo) : Prop where
  run : ∀ reader, Deep objects active reader → (x reader).run.run memo = (result, memo')
  plain : ∀ s, (x (uncached objects base active)).run.run s = (result, s)
  sound : Sound objects base active memo'
  grows : memo.Grows memo'
  inside : ∀ a, result = .ok a → ∀ inside, memo'.Open inside →
    ∀ s, Yields (x (uncached objects base inside)) s a s

/-- From every sound memo, the computation gives what it gives without a memo. -/
def Tracks (objects : List Object) (base : Memo) (active : List ConId)
    (x : ConReader → Eval α) : Prop :=
  ∀ memo, Sound objects base active memo → ∃ result memo',
    Ending objects base active x memo result memo'

namespace Tracks

theorem pure (a : α) :
  Tracks objects base active fun _ => pure a
  := by
  intro memo hmemo
  refine ⟨.ok a, memo, fun _ _ => rfl, fun _ => rfl, hmemo, Memo.Grows.refl memo, ?_⟩
  intro b hb inside _ s
  cases hb
  rfl

theorem failAt (pos : Pos) (cause : Cause) :
  Tracks objects base active fun _ => (failAt pos cause : Eval α)
  := by
  intro memo hmemo
  exact ⟨.error { cause, pos }, memo, fun _ _ => rfl, fun _ => rfl, hmemo,
    Memo.Grows.refl memo, nofun⟩

theorem liftAt (pos : Pos) (e : Except Cause α) :
  Tracks objects base active fun _ => (liftAt pos e : Eval α)
  := by
  cases e with
  | error cause => apply Tracks.failAt
  | ok a => apply Tracks.pure

/-- Computations that track the memo do so in turn. -/
theorem bind {x : ConReader → Eval α} {f : ConReader → α → Eval β}
    (hx : Tracks objects base active x)
    (hf : ∀ a, Tracks objects base active fun reader => f reader a) :
  Tracks objects base active fun reader => x reader >>= f reader
  := by
  intro memo hmemo
  obtain ⟨result, middle, hfirst⟩ := hx memo hmemo
  cases result with
  | error fault =>
    refine ⟨.error fault, middle, ?_, ?_, hfirst.sound, hfirst.grows, nofun⟩
    · intro reader hreader
      rw [run_bind, hfirst.run reader hreader]
    · intro s
      rw [run_bind, hfirst.plain]
  | ok a =>
    obtain ⟨result, memo', hsecond⟩ := hf a middle hfirst.sound
    refine ⟨result, memo', ?_, ?_, hsecond.sound, hfirst.grows.trans hsecond.grows, ?_⟩
    · intro reader hreader
      rw [run_bind, hfirst.run reader hreader]
      apply hsecond.run reader hreader
    · intro s
      rw [run_bind, hfirst.plain]
      apply hsecond.plain
    · intro b hb inside hopen s
      apply yields_bind.mpr
      use a, s, hfirst.inside a rfl inside (hopen.of_grows hsecond.grows) s
      apply hsecond.inside b hb inside hopen

/-- A lookup and what is done with its result. -/
theorem lookupIn (site : Site) (id : ObjId) (scope : Scope) (name : String) (pos : Pos)
    {f : ConReader → Meaning → Eval α}
    (hf : ∀ meaning, SpinHub.lookup? site.objects id scope name = some meaning →
      Tracks objects base active fun reader => f reader meaning) :
  Tracks objects base active fun reader => site.lookupIn id scope name pos >>= f reader
  := by
  unfold Site.lookupIn
  cases hlookup : SpinHub.lookup? site.objects id scope name with
  | none => apply Tracks.failAt
  | some meaning =>
    simp only [pure_bind]
    apply hf meaning hlookup

end Tracks

/-! ### Expressions -/

namespace Site

theorem labelNamed_tracks (site : Site) (name : String) (pos : Pos) :
  Tracks objects base active fun _ => site.labelNamed name pos
  := by
  apply Tracks.lookupIn
  intro meaning _
  cases meaning with
  | label label => apply Tracks.pure
  | slot | con | sub | var | method | file => apply Tracks.failAt

theorem labelOf_tracks (site : Site) (e : Exp) :
  Tracks objects base active fun _ => site.labelOf e
  := by
  unfold labelOf
  cases e.simpleName? with
  | none => apply Tracks.failAt
  | some name => apply labelNamed_tracks

section

-- reading a constant is tracked; every expression then is
variable {site : Site} (hread : ∀ owner index con, Listed site.objects owner index con →
  Tracks site.objects base active fun reader => reader owner index con)

include hread

/-- The value of a name tracks the memo if the reading of constants does. -/
theorem nameValue_tracks (name : String) (pos : Pos) :
  Tracks site.objects base active fun reader => site.nameValue reader name pos
  := by
  apply Tracks.lookupIn
  intro meaning hmeaning
  cases meaning with
  | label label =>
    cases site.here with
    | none => apply Tracks.pure
    | some here =>
      simp only
      split_ifs
      · apply Tracks.failAt
      · apply Tracks.pure
  | con owner index con => apply hread _ _ _ (listed_of_lookup hmeaning)
  | slot | sub | var | method | file => apply Tracks.failAt

/-- The value of a constant of another object tracks the memo if the reading of constants does. -/
theorem memberValue_tracks (object name : String) (pos : Pos) :
  Tracks site.objects base active fun reader => site.memberValue reader object name pos
  := by
  apply Tracks.lookupIn
  intro meaning _
  cases meaning with
  | sub sub =>
    apply Tracks.lookupIn
    intro member hmember
    cases member with
    | con owner index con => apply hread _ _ _ (listed_of_lookup hmember)
    | slot | label | sub | var | method | file => apply Tracks.failAt
  | slot | con | label | var | method | file => apply Tracks.failAt

/-- An expression tracks the memo if the reading of constants does, by induction on the
expression. -/
theorem evalWith_tracks (e : Exp) :
  Tracks site.objects base active fun reader => site.evalWith reader e
  := by
  induction e using Site.evalWith.induct site with
  | case1 pos w => apply Tracks.pure
  | case2 pos x => apply Tracks.pure
  | case3 pos name => apply nameValue_tracks hread
  | case4 pos name => apply nameValue_tracks hread
  | case5 pos object name => apply memberValue_tracks hread
  | case6 pos operand =>
    apply Tracks.bind (labelOf_tracks site operand)
    intro label
    apply Tracks.pure
  | case7 pos op operand hop ih =>
    simp only [evalWith]
    apply Tracks.bind ih
    intro v
    apply Tracks.liftAt
  | case8 pos op left right ihl ihr =>
    apply Tracks.bind ihl
    intro l
    apply Tracks.bind ihr
    intro r
    apply Tracks.liftAt
  | case9 pos reg here hhere =>
    simp only [evalWith, hhere]
    apply Tracks.pure
  | case10 pos reg hhere =>
    simp only [evalWith, hhere]
    apply Tracks.failAt
  | case11 pos reg bits hbits =>
    simp only [evalWith]
    apply Tracks.failAt
  | case12 pos conversion operand ih =>
    apply Tracks.bind ih
    intro v
    apply Tracks.liftAt
  | case13 pos operand ih => apply ih
  | case14 pos here hhere =>
    simp only [evalWith, hhere]
    apply Tracks.pure
  | case15 pos hhere =>
    simp only [evalWith, hhere]
    apply Tracks.failAt
  | case16 pos name =>
    apply Tracks.bind (labelNamed_tracks site name pos)
    intro label
    apply Tracks.pure
  | case17 e =>
    simp only [evalWith]
    apply Tracks.failAt

end

end Site

/-! ### Constants -/

namespace Sound

/-- The constants that are being evaluated are not done. -/
theorem active_open (h : Sound objects base active memo) :
  memo.Open active
  := by
  intro id hid v hdone
  have hmark := (h.marks id).mpr (.inr hid)
  cases hdone.symm.trans hmark

/-- What a sound memo does not know was not known from the start. -/
theorem base_pending (h : Sound objects base active memo) {id : ConId}
    (hid : memo.status id = .pending) :
  base.status id = .pending
  := by
  cases hbase : base.status id with
  | pending => rfl
  | evaluating => cases hid.symm.trans ((h.marks id).mpr (.inl hbase))
  | done v => cases hid.symm.trans (h.grows id v hbase)

/-- What a sound memo does not know is not being read. -/
theorem not_active (h : Sound objects base active memo) {id : ConId}
    (hid : memo.status id = .pending) :
  id ∉ active
  := by
  intro hactive
  cases hid.symm.trans ((h.marks id).mpr (.inr hactive))

/-- A memo stays sound when one constant is recorded. -/
theorem record {outer : List ConId} (h : Sound objects base outer memo) {id : ConId}
    (hbase : base.status id = .pending) (hid : ∀ v, memo.status id ≠ .done v) {status : Status}
    (hself : id ∈ active ↔ status = .evaluating)
    (hothers : ∀ other, other ≠ id → (other ∈ active ↔ other ∈ outer))
    (hvalue : ∀ v, status = .done v → ∀ con, Listed objects id.1 id.2 con →
      ∀ inside, (memo.record id status).Open inside →
      ∀ s, Yields (uncached objects base inside id.1 id.2 con) s v s) :
  Sound objects base active (memo.record id status)
  := by
  have hgrows : memo.Grows (memo.record id status) := Memo.Grows.record status hid
  refine ⟨h.grows.trans hgrows, ?_, ?_⟩
  · intro other
    by_cases hother : other = id
    · simp [hother, Memo.status_record_self, hbase, hself]
    · rw [Memo.status_record_ne _ hother, h.marks, hothers other hother]
  · intro owner index con v hlisted hdone inside hopen
    by_cases hother : (owner, index) = id
    · subst hother
      rw [Memo.status_record_self] at hdone
      apply hvalue v hdone con hlisted inside hopen
    · rw [Memo.status_record_ne _ hother] at hdone
      apply h.values owner index con v hlisted hdone inside (hopen.of_grows hgrows)

end Sound

/-- A constant that is done is answered from the memo. -/
theorem run_readThrough_done {inner : ConReader} {owner : ObjId} {index : Nat} {v : Value}
    (con : Con) (h : memo.status (owner, index) = .done v) :
  (readThrough objects inner owner index con).run.run memo = (.ok v, memo)
  := by
  rw [readThrough, run_get_bind, h]
  rfl

/-- A constant that is being evaluated is circular. -/
theorem run_readThrough_evaluating {inner : ConReader} {owner : ObjId} {index : Nat} (con : Con)
    (h : memo.status (owner, index) = .evaluating) :
  (readThrough objects inner owner index con).run.run memo
    = (.error { cause := .circularReference con.name.name, pos := con.name.pos }, memo)
  := by
  rw [readThrough, run_get_bind, h]
  rfl

/-- Any other constant is evaluated; the memo keeps its value, or forgets that it was begun. -/
theorem run_readThrough_pending {inner : ConReader} {owner : ObjId} {index : Nat} (con : Con)
    (h : memo.status (owner, index) = .pending) :
  (readThrough objects inner owner index con).run.run memo
    = match (Site.evalWith inner { objects, obj := owner } con.value).run.run
        (memo.record (owner, index) .evaluating) with
      | (.ok v, middle) => (.ok v, middle.record (owner, index) (.done v))
      | (.error fault, middle) =>
        (.error (fault.inFile (objectAt objects owner).file), middle.record (owner, index) .pending)
  := by
  rw [readThrough, run_get_bind, h]
  simp only
  rw [run_modify_bind, run_tryCatch, run_bind]
  rcases (Site.evalWith inner { objects, obj := owner } con.value).run.run _ with ⟨fault | v, m⟩
  · rfl
  · rfl

/-- A constant that is not known yet is read by evaluating its expression inside it. -/
theorem Sound.read_pending {owner : ObjId} {index : Nat} {con : Con}
    (hlisted : Listed objects owner index con) (hmemo : Sound objects base active memo)
    (hstatus : memo.status (owner, index) = .pending)
    (hvalue : Tracks objects base ((owner, index) :: active) fun reader =>
      Site.evalWith reader { objects, obj := owner } con.value) :
  ∃ result memo', Ending objects base active (fun reader => reader owner index con) memo
    result memo'
  := by
  have hbase := hmemo.base_pending hstatus
  have hactive := hmemo.not_active hstatus
  have hundone : ∀ v, memo.status (owner, index) ≠ .done v := by
    intro v hdone
    cases hstatus.symm.trans hdone
  have hmarked : Sound objects base ((owner, index) :: active)
      (memo.record (owner, index) .evaluating) := by
    apply hmemo.record hbase hundone
    · simp
    · intro other hother
      simp [hother]
    · nofun
  obtain ⟨result, middle, hinner⟩ := hvalue _ hmarked
  have hmiddle : ∀ v, middle.status (owner, index) ≠ .done v :=
    hinner.sound.active_open _ List.mem_cons_self
  have hothers : ∀ other, other ≠ (owner, index) →
      (other ∈ active ↔ other ∈ (owner, index) :: active) := by
    intro other hother
    simp [hother]
  have hgrows : ∀ status, memo.Grows (middle.record (owner, index) status) := by
    intro status
    apply (Memo.Grows.record _ hundone).trans
    apply hinner.grows.trans (Memo.Grows.record _ hmiddle)
  cases result with
  | error fault =>
    refine ⟨.error (fault.inFile (objectAt objects owner).file),
      middle.record (owner, index) .pending, ?_, ?_, ?_, hgrows _, nofun⟩
    · intro reader hreader
      obtain ⟨inner, rfl, hdeep⟩ := hreader.exists_inner
      rw [run_readThrough_pending con hstatus,
        hinner.run inner (hdeep _ hlisted.mem_conIds hactive)]
    · intro s
      rw [uncached_pending hbase hlisted hactive, run_inFile, hinner.plain]
    · apply hinner.sound.record hbase hmiddle _ hothers
      · nofun
      · simp [hactive]
  | ok v =>
    -- inside constants that are not done, the same constants are read to the same values
    have hagain : ∀ inside, (middle.record (owner, index) (.done v)).Open inside →
        ∀ s, Yields (uncached objects base inside owner index con) s v s := by
      intro inside hopen s
      have hout : (owner, index) ∉ inside := by
        intro hmem
        apply hopen _ hmem v (Memo.status_record_self ..)
      rw [uncached_pending hbase hlisted hout, yields_inFile]
      apply hinner.inside v rfl
      apply List.forall_mem_cons.mpr ⟨hmiddle, hopen.of_grows (Memo.Grows.record _ hmiddle)⟩
    refine ⟨.ok v, middle.record (owner, index) (.done v), ?_, ?_, ?_, hgrows _, ?_⟩
    · intro reader hreader
      obtain ⟨inner, rfl, hdeep⟩ := hreader.exists_inner
      rw [run_readThrough_pending con hstatus,
        hinner.run inner (hdeep _ hlisted.mem_conIds hactive)]
    · intro s
      rw [uncached_pending hbase hlisted hactive, run_inFile, hinner.plain]
    · apply hinner.sound.record hbase hmiddle _ hothers
      · intro w hw con' hlisted'
        cases hw
        cases Option.some.inj (hlisted.symm.trans hlisted')
        exact hagain
      · simp [hactive]
    · intro a ha
      cases ha
      exact hagain

/-- Reading a constant is tracked. The induction is on the constants that are left to read. -/
theorem read_tracks (base : Memo) (active : List ConId) {owner : ObjId} {index : Nat} {con : Con}
    (hlisted : Listed objects owner index con) :
  Tracks objects base active fun reader => reader owner index con
  := by
  induction hn : remaining objects active using Nat.strong_induction_on
    generalizing active owner index con with
  | _ n ih =>
    intro memo hmemo
    cases hstatus : memo.status (owner, index) with
    | done v =>
      have hvalue := hmemo.values owner index con v hlisted hstatus
      refine ⟨.ok v, memo, ?_, hvalue active hmemo.active_open, hmemo, Memo.Grows.refl memo, ?_⟩
      · intro reader hreader
        obtain ⟨inner, rfl, _⟩ := hreader.exists_inner
        apply run_readThrough_done con hstatus
      · intro a ha inside hopen s
        cases ha
        apply hvalue inside hopen
    | evaluating =>
      have hundone : ∀ v, base.status (owner, index) ≠ .done v := by
        intro v hdone
        cases hstatus.symm.trans (hmemo.grows _ v hdone)
      refine ⟨.error { cause := .circularReference con.name.name, pos := con.name.pos }, memo,
        ?_, ?_, hmemo, Memo.Grows.refl memo, nofun⟩
      · intro reader hreader
        obtain ⟨inner, rfl, _⟩ := hreader.exists_inner
        apply run_readThrough_evaluating con hstatus
      · intro s
        rw [uncached_active con hundone ((hmemo.marks _).mp hstatus)]
        rfl
    | pending =>
      apply hmemo.read_pending hlisted hstatus
      apply @Site.evalWith_tracks _ _ { objects, obj := owner }
      intro owner' index' con' hlisted'
      apply ih _ _ _ hlisted' rfl
      rw [← hn]
      apply remaining_cons hlisted.mem_conIds (hmemo.not_active hstatus)

/-- Every memo is sound for what is known from it. -/
theorem Sound.refl (objects : List Object) (base : Memo) :
  Sound objects base [] base
  := by
  refine ⟨Memo.Grows.refl base, ?_, ?_⟩
  · simp
  · intro owner index con v _ hdone inside _ s
    rw [uncached_done con hdone]
    rfl

/-- Expressions at a site track the memo. -/
theorem Site.eval_tracks (site : Site) (base : Memo) (e : Exp) :
  Tracks site.objects base [] fun reader => site.evalWith reader e
  := by
  apply Site.evalWith_tracks
  intro owner index con hlisted
  apply read_tracks base [] hlisted

/-- From every sound memo, an expression has the result that it has from the start. -/
theorem Site.run_eval (site : Site) (e : Exp) (hmemo : Sound site.objects base [] memo) :
  ∃ memo', (site.eval e).run.run memo = (((site.eval e).run.run base).1, memo')
    ∧ Sound site.objects base [] memo'
  := by
  obtain ⟨result, memo', hending⟩ := site.eval_tracks base e memo hmemo
  obtain ⟨result₀, memo₀, hending₀⟩ := site.eval_tracks base e base (Sound.refl ..)
  have hresult : result = result₀ :=
    (Prod.mk.inj ((hending.plain base).symm.trans (hending₀.plain base))).1
  use memo'
  rw [Site.eval, hending.run _ (Deep.conValue site), hending₀.run _ (Deep.conValue site), hresult]
  exact ⟨rfl, hending.sound⟩

/-! ### Sequences of evaluations -/

/-- An expression and where it is evaluated. -/
structure Request where
  obj : ObjId
  scope : Scope
  here : Option Int
  exp : Exp

namespace Request

/-- The result of a request, and the memo after it. -/
def runWith (objects : List Object) (reader : ConReader) (request : Request) (memo : Memo) :
    Except Fault Value × Memo :=
  (Site.evalWith reader { request with objects } request.exp).run.run memo

/-- The result of evaluating a request, and the memo after it. -/
def run (objects : List Object) (request : Request) (memo : Memo) : Except Fault Value × Memo :=
  (Site.eval { request with objects } request.exp).run.run memo

/-- The request is for a constant alone, by its own name or through a sub-object. -/
inductive Names (objects : List Object) (owner : ObjId) (index : Nat) (con : Con) :
    Request → Prop where
  | name {obj : ObjId} {scope : Scope} {here : Option Int} {pos : Pos} {name : String}
      (found : lookup? objects obj scope name = some (.con owner index con)) :
      Names objects owner index con ⟨obj, scope, here, .name pos name⟩
  | cell {obj : ObjId} {scope : Scope} {here : Option Int} {pos : Pos} {name : String}
      (found : lookup? objects obj scope name = some (.con owner index con)) :
      Names objects owner index con ⟨obj, scope, here, .cell pos name none []⟩
  | member {obj : ObjId} {scope : Scope} {here : Option Int} {pos : Pos} {object name : String}
      {sub : SubObject} (through : lookup? objects obj scope object = some (.sub sub))
      (found : lookup? objects sub.target [] name = some (.con owner index con)) :
      Names objects owner index con ⟨obj, scope, here, .member pos object name⟩

end Request

/-- The results of requests one after the other, and the memo after them. -/
def answers (objects : List Object) : List Request → Memo → List (Except Fault Value) × Memo
  | [], memo => ([], memo)
  | request :: requests, memo =>
    let first := request.run objects memo
    let rest := answers objects requests first.2
    (first.1 :: rest.1, rest.2)

namespace Request

/-- A request ends with the result that it has without a memo. -/
theorem run_spec (request : Request) (hmemo : Sound objects base [] memo) :
  ∃ result memo', Ending objects base []
    (fun reader => Site.evalWith reader { request with objects } request.exp) memo result memo'
    ∧ request.run objects memo = (result, memo')
  := by
  obtain ⟨result, memo', hending⟩ := Site.eval_tracks { request with objects } base request.exp
    memo hmemo
  use result, memo', hending
  apply hending.run _ (Deep.conValue _)

/-- A request for a constant alone reads that constant. -/
theorem Names.runWith_eq {request : Request} {owner : ObjId} {index : Nat} {con : Con}
    (h : Names objects owner index con request) (reader : ConReader) (memo : Memo) :
  request.runWith objects reader memo = (reader owner index con).run.run memo
  := by
  cases h with
  | name found | cell found =>
    simp [runWith, Site.evalWith, Site.nameValue, Site.lookup, Site.lookupIn, found]
  | member through found =>
    simp [runWith, Site.evalWith, Site.memberValue, Site.lookup, Site.lookupIn, through, found]

end Request

/-- Each request in a sequence is answered as if it were the first one. -/
theorem answers_spec (requests : List Request) (hmemo : Sound objects base [] memo) :
  (answers objects requests memo).1 = requests.map (fun request => (request.run objects base).1)
    ∧ Sound objects base [] (answers objects requests memo).2
    ∧ memo.Grows (answers objects requests memo).2
  := by
  induction requests generalizing memo with
  | nil => exact ⟨rfl, hmemo, Memo.Grows.refl memo⟩
  | cons request requests ih =>
    obtain ⟨result, memo', hending, hrun⟩ := request.run_spec hmemo
    obtain ⟨result₀, memo₀, hending₀, hrun₀⟩ := request.run_spec (Sound.refl objects base)
    obtain ⟨hresults, hsound, hgrows⟩ := ih hending.sound
    -- both results are the one without a memo
    have hresult : result = result₀ :=
      (Prod.mk.inj ((hending.plain base).symm.trans (hending₀.plain base))).1
    rw [answers, hrun]
    refine ⟨?_, hsound, hending.grows.trans hgrows⟩
    rw [List.map_cons, hrun₀, hresults, hresult]

/-- No result depends on what was evaluated before: requests give what they give from an empty
memo, and what they give without any memo. No mark is left and no value changes. Evaluation is
never deeper than there are constants, and all requests for one constant give one result. -/
theorem evaluation_independent (objects : List Object) (earlier requests : List Request) :
  let memo := (answers objects earlier []).2
  let after := answers objects requests memo
  after.1 = requests.map (fun request => (request.run objects []).1)
    ∧ (∀ id, after.2.status id ≠ .evaluating)
    ∧ memo.Grows after.2
    ∧ (∀ (request : Request) (s : Memo),
        request.runWith objects (uncached objects [] []) s = ((request.run objects memo).1, s))
    ∧ (∀ (request : Request) (bottom : ConReader) (depth : Nat),
        (conIds objects).length < depth →
        request.runWith objects (readersWithin objects bottom depth) memo
          = request.run objects memo)
    ∧ ∀ (owner : ObjId) (index : Nat) (con : Con) (request request' : Request),
        request.Names objects owner index con → request'.Names objects owner index con →
        (request.run objects memo).1 = (request'.run objects []).1
  := by
  intro memo after
  have hmemo : Sound objects [] [] memo := (answers_spec earlier (Sound.refl objects [])).2.1
  obtain ⟨hresults, hafter, hgrows⟩ := answers_spec requests hmemo
  have huncached : ∀ memo, Sound objects [] [] memo → ∀ (request : Request) (s : Memo),
      request.runWith objects (uncached objects [] []) s = ((request.run objects memo).1, s) := by
    intro memo hmemo request s
    obtain ⟨result, memo', hending, hrun⟩ := request.run_spec hmemo
    rw [hrun]
    apply hending.plain
  refine ⟨hresults, ?_, hgrows, huncached memo hmemo, ?_, ?_⟩
  · intro id hmark
    rcases (hafter.marks id).mp hmark with hbase | hactive
    · cases hbase
    · cases hactive
  · intro request bottom depth hdepth
    obtain ⟨result, memo', hending, hrun⟩ := request.run_spec hmemo
    rw [hrun]
    apply hending.run
    refine ⟨bottom, depth, ?_, rfl⟩
    apply (List.length_filter_le _ _).trans_lt hdepth
  · intro owner index con request request' hnames hnames'
    have hrun := huncached memo hmemo request []
    have hrun' := huncached [] (Sound.refl objects []) request' []
    rw [hnames.runWith_eq] at hrun
    rw [hnames'.runWith_eq, hrun] at hrun'
    exact (Prod.mk.inj hrun').1

/-- Two objects whose constants use each other: `X` of one and `Y` of the other are circular, and
`W` of the second is `Z` of the first. -/
def ring : List Object := [
  { file := "first"
    names := [("X", .con 0), ("Z", .con 1), ("OTHER", .sub 0)]
    cons := [
      { name := { name := "X" }, value := .member {} "other" "Y" },
      { name := { name := "Z" }, value := .int {} 1 }]
    subs := [{ name := { name := "other" }, file := { name := "second" }, countExp := none
               ownsVars := false, target := 1 }] },
  { file := "second"
    names := [("Y", .con 0), ("W", .con 1), ("OTHER", .sub 0)]
    cons := [
      { name := { name := "Y" }, value := .member {} "other" "X" },
      { name := { name := "W" }, value := .member {} "other" "Z" }]
    subs := [{ name := { name := "other" }, file := { name := "first" }, countExp := none
               ownsVars := false, target := 0 }] }]

/-- `X` is circular from both objects, with locals and in a DAT section, and before and after `W`
is evaluated. -/
theorem evaluation_independent_ring :
  let inside : Request := ⟨0, [("L", 4)], some 3, .name {} "X"⟩
  let across : Request := ⟨1, [], none, .member {} "other" "X"⟩
  let other : Request := ⟨1, [], none, .name {} "W"⟩
  let memo := (answers ring [other] []).2
  let x : Con := { name := { name := "X" }, value := .member {} "other" "Y" }
  (answers ring [inside, other] memo).1
      = [.error { cause := .circularReference "X", pos := {}, file := some "second" },
         .ok (.int 1)]
    ∧ ((conIds ring).length < 5
      ∧ inside.runWith ring (readersWithin ring (fun _ _ _ => pure (.int 7)) 5) memo
        = inside.run ring memo)
    ∧ inside.Names ring 0 0 x ∧ across.Names ring 0 0 x
    ∧ (inside.run ring memo).1 = (across.run ring []).1
  := by
  intro inside across other memo x
  obtain ⟨hresults, _, _, _, hends, hone⟩ := evaluation_independent ring [other] [inside, other]
  have hdepth : (conIds ring).length < 5 := by decide
  have hinside : inside.Names ring 0 0 x := .name rfl
  have hacross : across.Names ring 0 0 x := .member rfl rfl
  refine ⟨?_, ⟨hdepth, hends inside _ 5 hdepth⟩, hinside, hacross,
    hone 0 0 x inside across hinside hacross⟩
  rw [hresults]
  decide +kernel

end SpinHub
