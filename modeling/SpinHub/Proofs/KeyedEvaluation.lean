import Mathlib
import SpinHub.Proofs.ParallelRuns

/-!
# Evaluation by keys

Evaluating an expression and evaluating the expression with the keys of its names, in objects that
are the same once they are keyed, run in parallel: the values, the constants that are remembered and
the kinds of faults are the same.
-/

namespace SpinHub

variable {σ α : Type}

/-! ### Meanings -/

/-- What names stand for that are spelled in two ways. -/
inductive Meaning.Alike : Meaning → Meaning → Prop where
  | slot (offset : Int) : Alike (.slot offset) (.slot offset)
  | con (owner : ObjId) (index : Nat) {c c' : Con} :
      c.keyed = c'.keyed → Alike (.con owner index c) (.con owner index c')
  | label {l l' : Label} : l.keyed = l'.keyed → Alike (.label l) (.label l')
  | var {v v' : Var} : v.keyed = v'.keyed → Alike (.var v) (.var v')
  | sub {s s' : SubObject} : s.keyed = s'.keyed → Alike (.sub s) (.sub s')
  | method {m m' : Method} : m.keyed = m'.keyed → Alike (.method m) (.method m')
  | file (id : ObjId) : Alike (.file id) (.file id)

/-- Meanings with the same keys are alike, kind by kind. -/
theorem Meaning.alike_of_keyed {meaning meaning' : Meaning}
    (h : meaning.keyed = meaning'.keyed) :
  Alike meaning meaning'
  := by
  cases meaning <;> cases meaning' <;> simp only [keyed, reduceCtorEq, slot.injEq, con.injEq,
    label.injEq, var.injEq, sub.injEq, method.injEq, file.injEq] at h
  case slot.slot offset _ =>
    subst h
    exact .slot offset
  case con.con owner index _ _ _ _ =>
    obtain ⟨rfl, rfl, hcon⟩ := h
    exact .con owner index hcon
  case label.label => exact .label h
  case var.var => exact .var h
  case sub.sub => exact .sub h
  case method.method => exact .method h
  case file.file id _ =>
    subst h
    exact .file id

/-- A name and its other spellings stand for the same in objects that are the same up to case. -/
theorem lookup?_alike {objects objects' : List Object}
    (h : objects.map Object.keyed = objects'.map Object.keyed) (id : ObjId) (scope : Scope)
    {name name' : String} (hname : nameKey name = nameKey name') :
  Option.Rel Meaning.Alike (lookup? objects id scope name) (lookup? objects' id scope name')
  := by
  have hsame : (lookup? objects id scope name).map Meaning.keyed
      = (lookup? objects' id scope name').map Meaning.keyed := by
    rw [← lookup?_keyed, ← lookup?_keyed, h, hname]
  revert hsame
  generalize lookup? objects id scope name = found
  generalize lookup? objects' id scope name' = found'
  intro hsame
  cases optionRel_of_map_eq hsame with
  | none => exact .none
  | some hmeaning => exact .some (Meaning.alike_of_keyed hmeaning)

/-- A name is unknown in all spellings of the objects or in none. -/
theorem isNone_lookup?_alike {objects objects' : List Object}
    (h : objects.map Object.keyed = objects'.map Object.keyed) (id : ObjId) (scope : Scope)
    (name : String) :
  (lookup? objects id scope name).isNone = (lookup? objects' id scope name).isNone
  := by
  have hkeyed (objects : List Object) :
      (lookup? (objects.map Object.keyed) id scope (nameKey name)).isNone
        = (lookup? objects id scope name).isNone := by
    rw [lookup?_keyed, Option.isNone_map]
  rw [← hkeyed, h, hkeyed]

/-- Objects of one number have file names that are the same up to case. -/
theorem nameKey_file_objectAt {objects objects' : List Object}
    (h : objects.map Object.keyed = objects'.map Object.keyed) (id : ObjId) :
  nameKey (objectAt objects id).file = nameKey (objectAt objects' id).file
  := by
  have hobject : (objectAt objects id).keyed = (objectAt objects' id).keyed := by
    rw [← objectAt_keyed, h, objectAt_keyed]
  exact (congrArg Object.file hobject :)

/-! ### Sites -/

namespace Site

/-- The same place in objects that are the same up to case. -/
def Alike (site site' : Site) : Prop := site.keyed = site'.keyed

namespace Alike

variable {site site' : Site} (h : site.Alike site')

include h

theorem objects :
  site.objects.map Object.keyed = site'.objects.map Object.keyed
  := (congrArg Site.objects h :)

theorem obj :
  site.obj = site'.obj
  := (congrArg Site.obj h :)

theorem scope :
  site.scope = site'.scope
  := (congrArg Site.scope h :)

theorem here :
  site.here = site'.here
  := (congrArg Site.here h :)

theorem object :
  site.object.keyed = site'.object.keyed
  := by
  rw [Site.object, ← objectAt_keyed, h.objects, objectAt_keyed, h.obj, Site.object]

/-- Sites that are alike find meanings that are alike under spellings of one name. -/
theorem lookup? {name name' : String} (hname : nameKey name = nameKey name') :
  Option.Rel Meaning.Alike (site.lookup? name) (site'.lookup? name')
  := by
  rw [Site.lookup?, Site.lookup?, h.obj, h.scope]
  apply lookup?_alike h.objects _ _ hname

/-- A name is looked up in another object in the same way, in all spellings. -/
theorem lookupIn {S : σ → σ → Prop} (id : ObjId) (scope : Scope) {name name' : String}
    (hname : nameKey name = nameKey name') (pos : Pos) :
  Parallel S Meaning.Alike (site.lookupIn id scope name pos : ExceptT Fault (StateM σ) Meaning)
    (site'.lookupIn id scope name' pos)
  := by
  rw [Site.lookupIn, Site.lookupIn]
  have hrel := lookup?_alike h.objects id scope hname
  revert hrel
  generalize SpinHub.lookup? site.objects id scope name = found
  generalize SpinHub.lookup? site'.objects id scope name' = found'
  rintro (hmeaning | _)
  · exact Parallel.pure hmeaning
  · exact Parallel.failAt pos rfl

theorem lookup {S : σ → σ → Prop} {name name' : String} (hname : nameKey name = nameKey name')
    (pos : Pos) :
  Parallel S Meaning.Alike (site.lookup name pos : ExceptT Fault (StateM σ) Meaning)
    (site'.lookup name' pos)
  := by
  rw [Site.lookup, Site.lookup, h.obj, h.scope]
  apply h.lookupIn _ _ hname

end Alike

/-! ### Expressions -/

/-- Two readers of constants run in parallel. -/
def ReadsAlike (read read' : ConReader) : Prop :=
  ∀ owner index con con', con.keyed = con'.keyed →
    Parallel Eq Eq (read owner index con) (read' owner index con')

variable {site site' : Site} {read read' : ConReader}

/-- A name has one value in all spellings, if constants have. -/
theorem nameValue_parallel (h : site.Alike site') (hread : ReadsAlike read read') (name : String)
    (pos : Pos) :
  Parallel Eq Eq (site.nameValue read name pos) (site'.nameValue read' (nameKey name) pos)
  := by
  apply Parallel.bind (h.lookup (nameKey_nameKey name).symm pos)
  intro meaning meaning' hmeaning
  cases hmeaning with
  | slot | var | sub | method | file => exact Parallel.failAt pos rfl
  | con owner index hcon => apply hread owner index _ _ hcon
  | @label l l' hlabel =>
    have hcog : l.cog = l'.cog := (congrArg Label.cog hlabel :)
    have hoffset : l.offset = l'.offset := (congrArg Label.offset hlabel :)
    dsimp only
    rw [h.here, hcog, hoffset]
    cases site'.here with
    | none => apply Parallel.pure rfl
    | some here =>
      dsimp only
      split_ifs
      · exact Parallel.failAt pos rfl
      · apply Parallel.pure rfl

/-- A constant of another object has one value in all spellings, if constants have. -/
theorem memberValue_parallel (h : site.Alike site') (hread : ReadsAlike read read')
    (object name : String) (pos : Pos) :
  Parallel Eq Eq (site.memberValue read object name pos)
    (site'.memberValue read' (nameKey object) (nameKey name) pos)
  := by
  apply Parallel.bind (h.lookup (nameKey_nameKey object).symm pos)
  intro meaning meaning' hmeaning
  cases hmeaning with
  | slot | con | label | var | method | file => exact Parallel.failAt pos rfl
  | @sub s s' hsub =>
    have htarget : s.target = s'.target := (congrArg SubObject.target hsub :)
    dsimp only
    rw [htarget]
    apply Parallel.bind (h.lookupIn s'.target [] (nameKey_nameKey name).symm pos)
    intro member member' hmember
    cases hmember with
    | slot | label | var | sub | method | file => exact Parallel.failAt pos rfl
    | con owner index hcon => apply hread owner index _ _ hcon

theorem labelNamed_parallel (h : site.Alike site') (name : String) (pos : Pos) :
  Parallel Eq (fun l l' => l.keyed = l'.keyed) (site.labelNamed name pos)
    (site'.labelNamed (nameKey name) pos)
  := by
  apply Parallel.bind (h.lookup (nameKey_nameKey name).symm pos)
  intro meaning meaning' hmeaning
  cases hmeaning with
  | slot | con | var | sub | method | file => exact Parallel.failAt pos rfl
  | label hlabel => exact Parallel.pure hlabel

/-- The label that an expression names is the same up to case. -/
theorem labelOf_parallel (h : site.Alike site') (e : Exp) :
  Parallel Eq (fun l l' => l.keyed = l'.keyed) (site.labelOf e) (site'.labelOf e.keyed)
  := by
  rw [labelOf, labelOf, Exp.simpleName?_keyed, Exp.keyed_pos]
  cases e.simpleName? with
  | none => exact Parallel.failAt e.pos rfl
  | some name => apply labelNamed_parallel h

/-- An expression has one value in the spelling by keys, if constants have. -/
theorem evalWith_parallel (h : site.Alike site') (hread : ReadsAlike read read') (e : Exp) :
  Parallel Eq Eq (site.evalWith read e) (site'.evalWith read' e.keyed)
  := by
  induction e using Site.evalWith.induct site with
  | case1 pos w => apply Parallel.pure rfl
  | case2 pos x => apply Parallel.pure rfl
  | case3 pos name => apply nameValue_parallel h hread
  | case4 pos name => apply nameValue_parallel h hread
  | case5 pos object name => apply memberValue_parallel h hread
  | case6 pos operand =>
    apply Parallel.bind (labelOf_parallel h operand)
    intro l l' hlabel
    have hoffset : l.offset = l'.offset := (congrArg Label.offset hlabel :)
    rw [hoffset]
    apply Parallel.pure rfl
  | case7 pos op operand hop ih =>
    rw [Exp.keyed, evalWith, evalWith]
    · apply Parallel.bind ih
      rintro v _ rfl
      apply Parallel.liftAt
    · exact hop
    · exact hop
  | case8 pos op left right ihl ihr =>
    apply Parallel.bind ihl
    rintro l _ rfl
    apply Parallel.bind ihr
    rintro r _ rfl
    apply Parallel.liftAt
  | case9 pos reg here hhere =>
    rw [Exp.keyed, evalWith, evalWith, ← h.here, hhere]
    apply Parallel.pure rfl
  | case10 pos reg hhere =>
    rw [Exp.keyed, evalWith, evalWith, ← h.here, hhere]
    exact Parallel.failAt pos rfl
  | case11 pos reg bits hbits =>
    cases bits with
    | all => cases hbits rfl
    | one bit => exact Parallel.failAt pos rfl
    | field high low => exact Parallel.failAt pos rfl
  | case12 pos conversion operand ih =>
    rw [Exp.keyed, evalWith, evalWith, Exp.keyed_pos]
    apply Parallel.bind ih
    rintro v _ rfl
    apply Parallel.liftAt
  | case13 pos operand ih => apply ih
  | case14 pos here hhere =>
    rw [Exp.keyed, evalWith, evalWith, ← h.here, hhere]
    apply Parallel.pure rfl
  | case15 pos hhere =>
    rw [Exp.keyed, evalWith, evalWith, ← h.here, hhere]
    exact Parallel.failAt pos rfl
  | case16 pos name =>
    apply Parallel.bind (labelNamed_parallel h name pos)
    intro l l' hlabel
    have hoffset : l.offset = l'.offset := (congrArg Label.offset hlabel :)
    have haddress : site.object.hubAddress = site'.object.hubAddress :=
      (congrArg Object.hubAddress h.object :)
    rw [hoffset, haddress]
    apply Parallel.pure rfl
  | case17 e hint hfloat hname hcell hmember _ hunary hbinary _ hregister hconvert hconstant hhere
      habsolute =>
    cases e with
    | int pos w => cases hint pos w rfl
    | float pos x => cases hfloat pos x rfl
    | name pos n => cases hname pos n rfl
    | cell pos n size indices =>
      cases size with
      | some width => exact Parallel.failAt pos rfl
      | none =>
        cases indices with
        | nil => cases hcell pos n rfl
        | cons index rest => exact Parallel.failAt pos rfl
    | member pos object n => cases hmember pos object n rfl
    | unary pos op operand => cases hunary pos op operand rfl
    | binary pos op left right => cases hbinary pos op left right rfl
    | register pos reg bits => cases hregister pos reg bits rfl
    | convert pos conversion operand => cases hconvert pos conversion operand rfl
    | constant pos operand => cases hconstant pos operand rfl
    | here pos => cases hhere pos rfl
    | absolute pos n => cases habsolute pos n rfl
    | memory pos | call pos | assign pos | look pos | special pos | readOnly pos | string pos
    | cog pos | stringCompare pos | stringSize pos | lock pos => exact Parallel.failAt pos rfl

/-- Readers that run in parallel with others run in parallel with themselves. -/
theorem ReadsAlike.self (h : ReadsAlike read read') :
  ReadsAlike read' read'
  := by
  intro owner index con con' hcon
  have hback := (h owner index con con rfl).symm Eq.symm Eq.symm
  exact hback.trans (h owner index con con' hcon) (fun _ => rfl) Eq.trans Eq.trans

/-- Two spellings of an expression have one value. -/
theorem evalWith_alike (h : site.Alike site') (hread : ReadsAlike read read') {e e' : Exp}
    (he : e.keyed = e'.keyed) :
  Parallel Eq Eq (site.evalWith read e) (site'.evalWith read' e')
  := by
  have hthere := evalWith_parallel h hread e
  have hback : Parallel Eq Eq (site'.evalWith read' e') (site'.evalWith read' e'.keyed) :=
    evalWith_parallel rfl hread.self e'
  rw [he] at hthere
  exact hthere.trans (hback.symm Eq.symm Eq.symm) (fun _ => rfl) Eq.trans Eq.trans

end Site

/-! ### Constants -/

/-- Constants that are the same up to case have one value. -/
theorem conValueWithin_parallel {objects objects' : List Object}
    (h : objects.map Object.keyed = objects'.map Object.keyed) (depth : Nat) :
  Site.ReadsAlike (conValueWithin objects depth) (conValueWithin objects' depth)
  := by
  induction depth with
  | zero =>
    intro owner index con con' hcon
    have hpos : con.name.pos = con'.name.pos := (congrArg (·.name.pos) hcon :)
    rw [conValueWithin, conValueWithin]
    dsimp only
    rw [hpos]
    exact Parallel.failAt _ rfl
  | succ depth ih =>
    intro owner index con con' hcon
    have hpos : con.name.pos = con'.name.pos := (congrArg (·.name.pos) hcon :)
    have hvalue : con.value.keyed = con'.value.keyed := (congrArg Con.value hcon :)
    have hfile := nameKey_file_objectAt h owner
    have hsite : Site.Alike { objects, obj := owner } { objects := objects', obj := owner } := by
      simp only [Site.Alike, Site.keyed, h]
    rw [conValueWithin, conValueWithin, readThrough, readThrough, hpos]
    apply Parallel.bind Parallel.get
    rintro memo _ rfl
    cases memo.status (owner, index) with
    | done v => exact Parallel.pure rfl
    | evaluating => exact Parallel.failAt _ rfl
    | pending =>
      apply Parallel.bind (Parallel.modify (by rintro _ _ rfl; rfl))
      intro _ _ _
      apply Parallel.tryCatch
      · apply Parallel.bind (Site.evalWith_alike hsite ih hvalue)
        rintro v _ rfl
        apply Parallel.bind (Parallel.modify (by rintro _ _ rfl; rfl))
        intro _ _ _
        exact Parallel.pure rfl
      · intro f g hfg
        apply Parallel.bind (Parallel.modify (by rintro _ _ rfl; rfl))
        intro _ _ _
        apply Parallel.throw (Fault.sketch_inFile hfg hfile)

namespace Site

variable {site site' : Site}

/-- The number of constants, and so the depth of evaluation, does not depend on spelling. -/
theorem conValue_alike (h : site.Alike site') :
  ReadsAlike site.conValue site'.conValue
  := by
  have hcount : site.objects.map (·.cons.length) = site'.objects.map (·.cons.length) := by
    have hcounts := congrArg (List.map (·.cons.length)) h.objects
    simpa only [List.map_map, Function.comp_def, Object.keyed, List.length_map] using hcounts
  rw [conValue, conValue, hcount]
  apply conValueWithin_parallel h.objects

theorem eval_parallel (h : site.Alike site') (e : Exp) :
  Parallel Eq Eq (site.eval e) (site'.eval e.keyed)
  := evalWith_parallel h (conValue_alike h) e

/-- Two spellings of an expression have one value, at sites that are alike. -/
theorem eval_alike (h : site.Alike site') {e e' : Exp} (he : e.keyed = e'.keyed) :
  Parallel Eq Eq (site.eval e) (site'.eval e')
  := evalWith_alike h (conValue_alike h) he

/-- Two spellings of an expression are the same whole number, or fail alike. -/
theorem evalInt_alike (h : site.Alike site') {e e' : Exp} (he : e.keyed = e'.keyed) :
  Parallel Eq Eq (site.evalInt e) (site'.evalInt e')
  := by
  rw [evalInt, evalInt, Exp.pos_of_keyed he]
  apply Parallel.bind (eval_alike h he)
  rintro v _ rfl
  apply Parallel.bind (Parallel.liftAt _ _)
  rintro w _ rfl
  exact Parallel.pure rfl

theorem evalIntOr_alike (h : site.Alike site') (default : Int) {e e' : Option Exp}
    (he : e.map Exp.keyed = e'.map Exp.keyed) :
  Parallel Eq Eq (site.evalIntOr default e) (site'.evalIntOr default e')
  := by
  cases optionRel_of_map_eq he with
  | none => exact Parallel.pure rfl
  | some hexp => exact evalInt_alike h hexp

end Site

end SpinHub
