import Mathlib
import SpinHub.Code.Statement
import SpinHub.Proofs.EvaluationFaults
import SpinHub.Proofs.KeyedEvaluation

/-!
# Code in step

The code of an expression is written in a few kinds of steps: final bytes, strings of the pool,
evaluation, remarks, and a part that ends at a target of its own. `Emit.InStep` relates two
computations that take the same steps. The main result says that the code of an expression and the
code of the expression with the keys of its names are written in step; what holds of every step
then holds of the code of all expressions.
-/

namespace SpinHub

/-- Related lists have related items at every place, or none in both. -/
theorem forall₂_getElem? {α : Type} {R : α → α → Prop} {items items' : List α}
    (h : List.Forall₂ R items items') (i : Nat) :
  Option.Rel R items[i]? items'[i]?
  := by
  induction h generalizing i with
  | nil => exact .none
  | cons hab _ ih =>
    cases i with
    | zero => exact .some hab
    | succ i => exact ih i

/-- The last items of related lists are related, or the given ones are taken in both. -/
theorem forall₂_getLastD {α : Type} {R : α → α → Prop} {items items' : List α}
    (h : List.Forall₂ R items items') {a a' : α} (ha : R a a') :
  R (items.getLastD a) (items'.getLastD a')
  := by
  induction h generalizing a a' with
  | nil => exact ha
  | cons hab _ ih =>
    rw [List.getLastD_cons, List.getLastD_cons]
    exact ih hab

namespace Emit

/-- Writes a part that ends at a new target, behind a push of the address of that target. -/
def answered (part : Emit Unit) : Emit Unit := do
  let done ← newTarget
  offset done
  part
  place done

/-- Two computations write a draft in the same steps, with results that are related. None of the
steps asks for an enclosing loop. -/
inductive InStep : {α : Type} → (α → α → Prop) → Emit α → Emit α → Prop where
  | pure {α : Type} {V : α → α → Prop} {a b : α} : V a b → InStep V (pure a) (pure b)
  | bind {α β : Type} {V : α → α → Prop} {W : β → β → Prop} {x y : Emit α} {f g : α → Emit β} :
      InStep V x y → (∀ a b, V a b → InStep W (f a) (g b)) → InStep W (x >>= f) (y >>= g)
  | throw {α : Type} {V : α → α → Prop} {f g : Fault} : f.sketch = g.sketch →
      f.cause ≠ .noEnclosingLoop → InStep V (throw f) (throw g)
  | code (bytes : Bytes) : InStep Eq (code bytes) (code bytes)
  | string (text : String) : InStep Eq (string text) (string text)
  | warn (pos : Pos) (text : String) : InStep Eq (warn pos text) (warn pos text)
  | evaluate {α : Type} {V : α → α → Prop} {x y : Eval α} : Parallel Eq V x y →
      FailsOnly Cause.IsValue x → InStep V (evaluate x) (evaluate y)
  | evaluate? {α : Type} {x y : Eval α} : Parallel Eq Eq x y →
      InStep Eq (evaluate? x) (evaluate? y)
  | answered {x y : Emit Unit} : InStep Eq x y → InStep Eq (answered x) (answered y)

/-- Evaluations that end alike do so in a draft, too. -/
theorem evaluate_parallel {α : Type} {V : α → α → Prop} {x y : Eval α} (h : Parallel Eq V x y) :
  Parallel Eq V (evaluate x) (evaluate y)
  := by
  rintro draft _ rfl
  obtain ⟨hresult, hmemo⟩ := h draft.memo draft.memo rfl
  exact ⟨hresult, congrArg (fun memo => { draft with memo }) hmemo⟩

namespace InStep

variable {α β : Type} {V : α → α → Prop} {W : β → β → Prop}

/-- Failures for one kind of cause are in step, unless a loop is missing. -/
theorem failAt (pos : Pos) {c c' : Cause} (h : c.kind = c'.kind) (hloop : c ≠ .noEnclosingLoop) :
  InStep V (failAt pos c) (failAt pos c')
  := by
  refine .throw ?_ hloop
  simp only [Fault.sketch, h]

theorem map {x y : Emit α} {f g : α → β} (hx : InStep V x y)
    (hf : ∀ a b, V a b → W (f a) (g b)) :
  InStep W (f <$> x) (g <$> y)
  := by
  rw [map_eq_pure_bind, map_eq_pure_bind]
  refine .bind hx ?_
  intro a b hab
  exact .pure (hf a b hab)

theorem opcode (byte : UInt8) :
  InStep Eq (opcode byte) (opcode byte)
  := .code [byte]

theorem push (w : Word) :
  InStep Eq (push w) (push w)
  := .code (Push.shortest w)

/-- One part and then another. -/
theorem andThen {x y x' y' : Emit Unit} (hx : InStep Eq x y) (hx' : InStep Eq x' y') :
  InStep Eq (do x; x') (do y; y')
  := .bind hx fun _ _ _ => hx'

theorem forM {ι : Type} {R : ι → ι → Prop} {f g : ι → Emit Unit} {items items' : List ι}
    (hitems : List.Forall₂ R items items') (hf : ∀ i j, R i j → InStep Eq (f i) (g j)) :
  InStep Eq (items.forM f) (items'.forM g)
  := by
  induction hitems with
  | nil => exact .pure rfl
  | cons hij _ ih => exact .andThen (hf _ _ hij) ih

/-- Parts that are in step one by one are so in order. -/
theorem all {parts parts' : List (Emit Unit)} (h : List.Forall₂ (InStep Eq) parts parts') :
  InStep Eq (all parts) (all parts')
  := forM h fun _ _ => id

/-- What is written in step runs in parallel. -/
theorem parallel {x y : Emit α} (h : InStep V x y) :
  Parallel Eq V x y
  := by
  induction h with
  | pure hab => exact Parallel.pure hab
  | bind _ _ hx hf => exact Parallel.bind hx hf
  | throw hfg _ => exact Parallel.throw hfg
  | code | string | warn => exact Parallel.refl_eq _
  | evaluate hxy _ => exact evaluate_parallel hxy
  | evaluate? hxy =>
    apply Parallel.tryCatch
    · apply Parallel.map (evaluate_parallel hxy)
      rintro a _ rfl
      rfl
    · intro f g _
      exact Parallel.pure rfl
  | answered _ hxy =>
    apply Parallel.bind (Parallel.refl_eq _)
    rintro done _ rfl
    apply Parallel.bind (Parallel.refl_eq _)
    intro _ _ _
    apply Parallel.bind hxy
    intro _ _ _
    exact Parallel.refl_eq _

end InStep

end Emit

open Emit (InStep)

/-- The codes of two expressions are written in step. -/
structure Code.InStep (code code' : Code) : Prop where
  value : ∀ keep, Emit.InStep Eq (code.value keep) (code'.value keep)
  access : ∀ access, Emit.InStep Eq (code.access access) (code'.access access)
  arguments : List.Forall₂ (Emit.InStep Eq) code.arguments code'.arguments

namespace Code.InStep

/-- What a code does to leave its value is in step. -/
theorem push {code code' : Code} (h : code.InStep code') :
  Emit.InStep Eq code.push code'.push
  := h.value true

theorem ofPush (pos : Pos) {push push' : Emit Unit} (h : Emit.InStep Eq push push') :
  Code.InStep (.ofPush pos push) (.ofPush pos push')
  where
  value keep := by
    cases keep with
    | false => exact .failAt pos rfl (by simp)
    | true => exact h
  access _ := .failAt pos rfl (by simp)
  arguments := .nil

theorem ofAccess (pos : Pos) {access access' : Access → Emit Unit}
    (h : ∀ a, Emit.InStep Eq (access a) (access' a)) :
  Code.InStep (.ofAccess pos access) (.ofAccess pos access')
  where
  value keep := by
    cases keep with
    | false => exact .failAt pos rfl (by simp)
    | true => exact h .load
  access := h
  arguments := .nil

theorem ofValue (pos : Pos) {value value' : Bool → Emit Unit}
    (h : ∀ keep, Emit.InStep Eq (value keep) (value' keep)) :
  Code.InStep (.ofValue pos value) (.ofValue pos value')
  where
  value := h
  access _ := .failAt pos rfl (by simp)
  arguments := .nil

end Code.InStep

/-- A term and the term of the expression with keys are pushed in step. -/
structure Term.InStep (term term' : Term) : Prop where
  exp : term'.exp = term.exp.keyed
  push : Emit.InStep Eq term.push term'.push

/-- Terms in step stand at one position. -/
theorem Term.InStep.pos {term term' : Term} (h : term.InStep term') :
  term'.exp.pos = term.exp.pos
  := by
  rw [h.exp, Exp.keyed_pos]

namespace Site

variable {site site' : Site} (h : site.Alike site')

include h

/-! ### Constants in step -/

/-- Whether a name is a constant does not depend on its case. -/
theorem isCon_keyed (name : String) :
  site'.isCon (nameKey name) = site.isCon name
  := by
  have hrel := h.lookup? (nameKey_nameKey name).symm
  rw [isCon, isCon]
  revert hrel
  generalize site.lookup? name = found
  generalize site'.lookup? (nameKey name) = found'
  rintro (hmeaning | _)
  · cases hmeaning <;> rfl
  · rfl

/-- An expression is constant in any spelling or in none. -/
theorem isConstant_keyed (e : Exp) :
  site'.isConstant e.keyed = site.isConstant e
  := by
  induction e using Site.isConstant.induct with
  | case1 pos name => exact isCon_keyed h name
  | case2 pos name => exact isCon_keyed h name
  | case3 | case4 | case5 | case6 | case7 => rfl
  | case8 pos op operand ih => rw [Exp.keyed, isConstant, isConstant, ih]
  | case9 pos op left right ihl ihr => rw [Exp.keyed, isConstant, isConstant, ihl, ihr]
  | case10 e hname hcell hint hfloat hmember hconvert hconstant hunary hbinary =>
    cases e with
    | name pos n => cases hname pos n rfl
    | cell pos n size indices =>
      cases size with
      | some width => rfl
      | none =>
        cases indices with
        | nil => cases hcell pos n rfl
        | cons index rest => rfl
    | int pos w => cases hint pos w rfl
    | float pos x => cases hfloat pos x rfl
    | member pos object n => cases hmember pos object n rfl
    | convert pos conversion operand => cases hconvert pos conversion operand rfl
    | constant pos operand => cases hconstant pos operand rfl
    | unary pos op operand => cases hunary pos op operand rfl
    | binary pos op left right => cases hbinary pos op left right rfl
    | register pos reg bits => cases bits <;> rfl
    | memory | call | assign | look | special | readOnly | string | cog | stringCompare | stringSize
    | lock | here | absolute => rfl

/-- A constant has one value in all spellings, so it is pushed in the same way. -/
theorem pushConstant_inStep (e : Exp) :
  InStep Eq (site.pushConstant e) (site'.pushConstant e.keyed)
  := by
  refine .bind (.evaluate (eval_parallel h e) (eval_faults site e)) ?_
  rintro v _ rfl
  apply InStep.push

/-- An expression is folded in both spellings or in none. -/
theorem folded_inStep (e : Exp) {code code' : Emit Unit} (hcode : InStep Eq code code') :
  InStep Eq (site.folded e code) (site'.folded e.keyed code')
  := by
  rw [folded, folded, isConstant_keyed h]
  split_ifs
  · refine .bind (.evaluate? (eval_parallel h e)) ?_
    rintro v _ rfl
    cases v with
    | none => exact hcode
    | some v => exact InStep.push _
  · exact hcode

/-- An operation is folded if both operands are constant, which the spelling does not decide. -/
theorem binaryTerm_inStep (pos : Pos) (op : BinaryOp) {left left' right right' : Term}
    (hleft : left.InStep left') (hright : right.InStep right') :
  (site.binaryTerm pos op left right).InStep (site'.binaryTerm pos op left' right')
  := by
  constructor
  · rw [binaryTerm, binaryTerm, hleft.exp, hright.exp]
    rfl
  · rw [binaryTerm, binaryTerm, hleft.exp, hright.exp]
    apply folded_inStep h (.binary pos op left.exp right.exp)
    exact .andThen hleft.push (.andThen hright.push (.opcode _))

/-! ### Cells in step -/

omit h in
/-- An access is in step if its index is; the place and the access are the same. -/
theorem accessCell_inStep (pos : Pos) (access : Access) (size : Int) (space : Space) (offset : Int)
    {index index' : Option (Emit Unit)} (hindex : Option.Rel (InStep Eq) index index') :
  InStep Eq (accessCell pos access size space offset index)
    (accessCell pos access size space offset index')
  := by
  cases hindex with
  | none =>
    rw [accessCell]
    dsimp only [Option.isSome_none]
    cases access.encode? size space offset false with
    | none => exact .failAt pos rfl (by simp)
    | some bytes => exact .code bytes
  | some hpush =>
    refine .andThen hpush ?_
    dsimp only [Option.isSome_some]
    cases access.encode? size space offset true with
    | none => exact .failAt pos rfl (by simp)
    | some bytes => exact .code bytes

theorem relocate_inStep (opcode : UInt8) :
  InStep Eq (site.relocate opcode) (site'.relocate opcode)
  := by
  have haddress : site.object.hubAddress = site'.object.hubAddress :=
    (congrArg Object.hubAddress h.object :)
  rw [relocate, relocate, haddress]
  exact .andThen (.push _) (.code _)

/-- A name leads to meanings that are the same up to case, or to nothing in both spellings. -/
theorem lookupIn_inStep (id : ObjId) (scope : Scope) (name : String) (pos : Pos) :
  InStep Meaning.Alike (site.lookupIn id scope name pos)
    (site'.lookupIn id scope (nameKey name) pos)
  := by
  have hrel := lookup?_alike h.objects id scope (nameKey_nameKey name).symm
  rw [lookupIn, lookupIn]
  revert hrel
  generalize SpinHub.lookup? site.objects id scope name = found
  generalize SpinHub.lookup? site'.objects id scope (nameKey name) = found'
  rintro (hmeaning | _)
  · exact .pure hmeaning
  · exact .failAt pos rfl (by simp)

theorem lookup_inStep (name : String) (pos : Pos) :
  InStep Meaning.Alike (site.lookup name pos) (site'.lookup (nameKey name) pos)
  := by
  rw [lookup, lookup, h.obj, h.scope]
  apply lookupIn_inStep h

/-- A bare name is accessed in the same way in all spellings. -/
theorem accessName_inStep (pos : Pos) (name : String) (access : Access) :
  InStep Eq (site.accessName pos name access) (site'.accessName pos (nameKey name) access)
  := by
  refine .bind (lookup_inStep h name pos) ?_
  intro meaning meaning' hmeaning
  cases hmeaning with
  | slot offset => exact accessCell_inStep pos access 4 .frame _ .none
  | @con owner index c c' hcon =>
    cases access with
    | load =>
      refine .bind (.evaluate (conValue_alike h owner index c c' hcon) ?_) ?_
      · apply conValueWithin_faults
      · rintro v _ rfl
        exact .push _
    | store | modify | address => exact .failAt pos rfl (by simp)
  | @label l l' hlabel =>
    have halignment : l.alignment = l'.alignment := (congrArg Label.alignment hlabel :)
    have hoffset : l.offset = l'.offset := (congrArg Label.offset hlabel :)
    dsimp only
    rw [halignment, hoffset]
    exact accessCell_inStep pos access _ .object _ .none
  | @var v v' hvar =>
    have hsize : v.size = v'.size := (congrArg Var.size hvar :)
    have hoffset : v.offset = v'.offset := (congrArg Var.offset hvar :)
    dsimp only
    rw [hsize, hoffset]
    exact accessCell_inStep pos access _ .vars _ .none
  | @sub s s' hsub =>
    have hindex : s.index = s'.index := (congrArg SubObject.index hsub :)
    cases access with
    | load =>
      dsimp only
      rw [hindex]
      exact .andThen (accessCell_inStep pos .load 4 .object _ .none) (relocate_inStep h _)
    | store =>
      dsimp only
      rw [hindex]
      exact .andThen (relocate_inStep h _) (accessCell_inStep pos .store 4 .object _ .none)
    | modify | address => exact .failAt pos rfl (by simp)
  | method | file => exact .failAt pos rfl (by simp)

/-- The cell that a name stands for does not depend on its spelling. -/
theorem cellNamed_inStep (pos : Pos) (name : String) :
  InStep Eq (site.cellNamed pos name) (site'.cellNamed pos (nameKey name))
  := by
  refine .bind (lookup_inStep h name pos) ?_
  intro meaning meaning' hmeaning
  cases hmeaning with
  | slot offset => exact .pure rfl
  | @var v v' hvar =>
    have hsize : v.size = v'.size := (congrArg Var.size hvar :)
    have hoffset : v.offset = v'.offset := (congrArg Var.offset hvar :)
    have hextents : v.extents = v'.extents := (congrArg Var.extents hvar :)
    have hdims : v.dims.isEmpty = v'.dims.isEmpty := by
      have hlength : v.dims.map Exp.keyed = v'.dims.map Exp.keyed := (congrArg Var.dims hvar :)
      rw [← List.isEmpty_map, hlength, List.isEmpty_map]
    dsimp only
    rw [hsize, hoffset, hextents, hdims]
    exact .pure rfl
  | @label l l' hlabel =>
    have halignment : l.alignment = l'.alignment := (congrArg Label.alignment hlabel :)
    have hoffset : l.offset = l'.offset := (congrArg Label.offset hlabel :)
    dsimp only
    rw [halignment, hoffset]
    exact .pure rfl
  | con | sub | method | file => exact .failAt pos rfl (by simp)

/-- One more dimension of a subscript. -/
theorem nextIndex_inStep {index index' : Term} (hindex : index.InStep index') {term term' : Term}
    (hterm : term.InStep term') (extent : Nat) :
  (site.nextIndex index (term, extent)).InStep (site'.nextIndex index' (term', extent))
  := by
  rw [nextIndex, nextIndex, hterm.pos]
  apply binaryTerm_inStep h _ _ _ hterm
  apply binaryTerm_inStep h _ _ hindex
  exact ⟨rfl, .push _⟩

/-- All dimensions of a subscript, by induction on the terms with their extents. -/
theorem foldl_nextIndex_inStep {index index' : Term} (hindex : index.InStep index')
    {terms terms' : List Term} (hterms : List.Forall₂ Term.InStep terms terms')
    (extents : List Nat) :
  ((terms.zip extents).foldl site.nextIndex index).InStep
    ((terms'.zip extents).foldl site'.nextIndex index')
  := by
  induction hterms generalizing index index' extents with
  | nil => exact hindex
  | cons hterm _ ih =>
    cases extents with
    | nil => exact hindex
    | cons extent extents => exact ih (nextIndex_inStep h hindex hterm extent) extents

/-- Indices in step flatten to an index in step, or there is none in both. -/
theorem subscript_inStep (extents : List Nat) {terms terms' : List Term}
    (hterms : List.Forall₂ Term.InStep terms terms') :
  InStep (Option.Rel (InStep Eq)) (liftM (site.subscript extents terms))
    (liftM (site'.subscript extents terms'))
  := by
  cases hterms with
  | nil => exact .pure .none
  | cons hfirst hrest =>
    cases hrest with
    | nil => exact .pure (.some hfirst.push)
    | @cons second second' rest rest' hsecond hrest =>
      have hterms := List.Forall₂.cons hfirst (.cons hsecond hrest)
      have hextra := forall₂_getElem? hterms extents.length
      have hlast := forall₂_getLastD (.cons hsecond hrest) hsecond
      rw [subscript, subscript, hterms.length_eq]
      revert hextra
      generalize (_ :: second :: rest)[extents.length]? = extra
      generalize (_ :: second' :: rest')[extents.length]? = extra'
      rintro (hextra | _)
      · refine .throw ?_ (by simp)
        simp only [Fault.sketch, hextra.pos]
      · dsimp only
        split_ifs
        · refine .throw ?_ (by simp)
          simp only [Fault.sketch, hlast.pos]
        · exact .pure (.some (foldl_nextIndex_inStep h hfirst (.cons hsecond hrest) _).push)

/-- A variable is accessed in the same way in all spellings, with indices or without. -/
theorem accessVariable_inStep (pos : Pos) (name : String) (size : Option Size)
    {indices indices' : List Term} (hindices : List.Forall₂ Term.InStep indices indices')
    (access : Access) :
  InStep Eq (site.accessVariable pos name size indices access)
    (site'.accessVariable pos (nameKey name) size indices' access)
  := by
  refine .bind (cellNamed_inStep h pos name) ?_
  rintro cell _ rfl
  dsimp only
  split_ifs
  · exact .failAt pos rfl (by simp)
  · refine .bind (subscript_inStep h cell.extents hindices) ?_
    intro index index' hindex
    exact accessCell_inStep pos access _ cell.space cell.offset hindex

/-- The size of a cell is known by its name in any spelling. -/
theorem cellSize_inStep (e : Exp) :
  InStep Eq (site.cellSize e) (site'.cellSize e.keyed)
  := by
  have hnamed : ∀ pos name, InStep Eq (Cell.size <$> site.cellNamed pos name)
      (Cell.size <$> site'.cellNamed pos (nameKey name)) := by
    intro pos name
    refine .map (cellNamed_inStep h pos name) ?_
    rintro cell _ rfl
    rfl
  cases e with
  | name pos name => exact hnamed pos name
  | cell pos name size indices =>
    cases size with
    | none => exact hnamed pos name
    | some size => exact .pure rfl
  | memory => exact .pure rfl
  | register pos reg bits => cases bits <;> exact .pure rfl
  | special => exact .pure rfl
  | int pos | float pos | member pos | call pos | unary pos | binary pos | assign pos | look pos
  | readOnly pos | convert pos | constant pos | string pos | cog pos | stringCompare pos
  | stringSize pos | lock pos | here pos | absolute pos => exact .failAt pos rfl (by simp)

/-! ### Calls in step -/

/-- A name leads to methods that are the same up to case. -/
theorem methodNamed_inStep (name : String) (pos : Pos) :
  InStep (fun m m' => m.keyed = m'.keyed) (site.methodNamed name pos)
    (site'.methodNamed (nameKey name) pos)
  := by
  refine .bind (lookup_inStep h name pos) ?_
  intro meaning meaning' hmeaning
  cases hmeaning with
  | method hmethod => exact .pure hmethod
  | slot | con | label | var | sub | file => exact .failAt pos rfl (by simp)

omit h in
theorem length_params_of_keyed {m m' : Method} (hm : m.keyed = m'.keyed) :
  m.params.length = m'.params.length
  := by
  have hparams : m.params.map Ident.keyed = m'.params.map Ident.keyed :=
    (congrArg Method.params hm :)
  rw [← List.length_map, hparams, List.length_map]

omit h in
/-- Methods that are the same up to case take as many arguments. -/
theorem checkArguments_inStep {m m' : Method} (hm : m.keyed = m'.keyed) (given : Nat) (pos : Pos) :
  InStep Eq (checkArguments m given pos) (checkArguments m' given pos)
  := by
  rw [checkArguments, checkArguments, length_params_of_keyed hm]
  split_ifs
  · exact .pure rfl
  · exact .failAt pos rfl (by simp)

/-- A call of a method of the object itself names one slot in all spellings. -/
theorem callOwn_inStep (pos : Pos) (name : String) (arguments : Nat) :
  InStep Eq (site.callOwn pos name arguments) (site'.callOwn pos (nameKey name) arguments)
  := by
  refine .bind (methodNamed_inStep h name pos) ?_
  intro m m' hm
  have hindex : m.index = m'.index := (congrArg Method.index hm :)
  rw [hindex]
  exact .andThen (checkArguments_inStep hm arguments pos) (.code _)

/-- A call of a method of a sub-object names the same two slots in all spellings. -/
theorem callSub_inStep (pos : Pos) (object name : String) {index index' : Option (Emit Unit)}
    (hindex : Option.Rel (InStep Eq) index index') (arguments : Nat) :
  InStep Eq (site.callSub pos object name index arguments)
    (site'.callSub pos (nameKey object) (nameKey name) index' arguments)
  := by
  refine .bind (lookup_inStep h object pos) ?_
  intro meaning meaning' hmeaning
  cases hmeaning with
  | slot | con | label | var | method | file => exact .failAt pos rfl (by simp)
  | @sub s s' hsub =>
    have htarget : s.target = s'.target := (congrArg SubObject.target hsub :)
    have hslot : s.index = s'.index := (congrArg SubObject.index hsub :)
    dsimp only
    rw [htarget, hslot]
    refine .bind (lookupIn_inStep h s'.target [] name pos) ?_
    intro member member' hmember
    cases hmember with
    | slot | con | label | var | sub | file => exact .failAt pos rfl (by simp)
    | @method m m' hm =>
      have hpublic : m.isPublic = m'.isPublic := (congrArg Method.isPublic hm :)
      have hplace : m.index = m'.index := (congrArg Method.index hm :)
      dsimp only
      rw [hpublic, hplace]
      split_ifs
      · exact .failAt pos rfl (by simp)
      · refine .andThen (checkArguments_inStep hm arguments pos) ?_
        cases hindex with
        | none => exact .code _
        | some hpush => exact .andThen hpush (.code _)

/-- A whole call is in step: anchor, arguments, and the code that names the method. -/
theorem call_inStep (pos : Pos) (object : Option String) {index index' : Option (Emit Unit)}
    (hindex : Option.Rel (InStep Eq) index index') (name : String)
    {arguments arguments' : List (Emit Unit)}
    (harguments : List.Forall₂ (InStep Eq) arguments arguments') (trap keep : Bool) :
  InStep Eq (site.call pos object index name arguments trap keep)
    (site'.call pos (object.map nameKey) index' (nameKey name) arguments' trap keep)
  := by
  refine .andThen (.opcode _) (.andThen (.all harguments) ?_)
  rw [harguments.length_eq]
  cases object with
  | some object => exact callSub_inStep h pos object name hindex _
  | none =>
    cases hindex with
    | none => exact callOwn_inStep h pos name _
    | some hpush => exact .failAt pos rfl (by simp)

/-- The code of a bare name, in all the ways in which it may be used. -/
theorem nameCode_inStep (pos : Pos) (name : String) :
  (site.nameCode pos name).InStep (site'.nameCode pos (nameKey name))
  where
  value keep := by
    refine .bind (lookup_inStep h name pos) ?_
    intro meaning meaning' hmeaning
    have hload : InStep Eq (if keep then site.accessName pos name .load else unused pos)
        (if keep then site'.accessName pos (nameKey name) .load else unused pos) := by
      cases keep with
      | false => exact .failAt pos rfl (by simp)
      | true => exact accessName_inStep h pos name .load
    cases hmeaning with
    | method hm => exact call_inStep h pos none .none name .nil false keep
    | slot | con | label | var | sub | file => exact hload
  access := accessName_inStep h pos name
  arguments := .nil

/-! ### Operators in step -/

/-- A unary operation is in step, as value or as assignment to its operand. -/
theorem unary_inStep (pos : Pos) (op : UnaryOp) (operand : Exp) {code code' : Code}
    (hcode : code.InStep code') (keep : Bool) :
  InStep Eq (site.unary pos op operand code keep) (site'.unary pos op operand.keyed code' keep)
  := by
  have hstep : InStep Eq (sizeStep <$> site.cellSize operand)
      (sizeStep <$> site'.cellSize operand.keyed) := by
    refine .map (cellSize_inStep h operand) ?_
    rintro size _ rfl
    rfl
  have hsized : ∀ opcode : UInt8 → UInt8, InStep Eq
      (do code.access .modify; Emit.opcode (opcode (← sizeStep <$> site.cellSize operand)))
      (do
        code'.access .modify
        Emit.opcode (opcode (← sizeStep <$> site'.cellSize operand.keyed))) := by
    intro opcode
    refine .andThen (hcode.access .modify) (.bind hstep ?_)
    rintro step _ rfl
    exact .opcode _
  rw [unary, unary]
  cases op.opcode? with
  | none =>
    dsimp only
    split_ifs
    · exact .failAt pos rfl (by simp)
    · exact hcode.access .address
    · exact .andThen hcode.push (.code _)
  | some opcode =>
    dsimp only
    split_ifs
    · exact hsized fun step => opcode + step + 0x80
    · exact hsized fun step => opcode + step
    · exact .andThen (hcode.access .modify) (.opcode _)
    · exact .andThen (hcode.access .modify) (.opcode _)
    · exact .andThen hcode.push (.opcode _)
    · exact .andThen (hcode.access .modify) (.opcode _)

theorem unaryCode_inStep (pos : Pos) (op : UnaryOp) (operand : Exp) {code code' : Code}
    (hcode : code.InStep code') :
  (site.unaryCode pos op operand code).InStep (site'.unaryCode pos op operand.keyed code')
  := by
  apply Code.InStep.ofValue pos
  intro keep
  cases keep with
  | false => exact unary_inStep h pos op operand hcode false
  | true => exact folded_inStep h _ (unary_inStep h pos op operand hcode true)

omit h

/-- An assignment is in step if target and value are. -/
theorem assign_inStep (op : Option BinaryOp) {target target' value value' : Code}
    (htarget : target.InStep target') (hvalue : value.InStep value') (keep : Bool) :
  InStep Eq (assign op target value keep) (assign op target' value' keep)
  := by
  refine .andThen hvalue.push ?_
  have hmodify : ∀ byte, InStep Eq (do target.access .modify; Emit.opcode byte)
      (do target'.access .modify; Emit.opcode byte) :=
    fun _ => .andThen (htarget.access .modify) (.opcode _)
  cases op with
  | none =>
    cases keep with
    | false => exact htarget.access .store
    | true => exact hmodify _
  | some op => exact hmodify _

/-! ### Registers and memory in step -/

/-- An access to memory at a computed address is in step if address and index are. -/
theorem accessMemory_inStep (size : Size) {base base' : Code} (hbase : base.InStep base')
    {index index' : Option Code} (hindex : Option.Rel Code.InStep index index') (access : Access) :
  InStep Eq (accessMemory size base index access) (accessMemory size base' index' access)
  := by
  refine .andThen hbase.push ?_
  cases hindex with
  | none => exact .opcode _
  | some hcode => exact .andThen hcode.push (.opcode _)

/-- The bits of a register with codes in step. -/
inductive BitsInStep : Bits Code → Bits Code → Prop where
  | all : BitsInStep .all .all
  | one {bit bit' : Code} : bit.InStep bit' → BitsInStep (.one bit) (.one bit')
  | field {high high' low low' : Code} : high.InStep high' → low.InStep low' →
      BitsInStep (.field high low) (.field high' low')

/-- An access to a register, or to some of its bits, is in step. -/
theorem accessRegister_inStep (pos : Pos) (reg : UInt8) {bits bits' : Bits Code}
    (hbits : BitsInStep bits bits') (access : Access) :
  InStep Eq (accessRegister pos reg bits access) (accessRegister pos reg bits' access)
  := by
  rw [accessRegister, accessRegister]
  split_ifs
  · exact .failAt pos rfl (by simp)
  · cases hbits with
    | all => exact .andThen (.opcode _) (.opcode _)
    | one hbit => exact .andThen hbit.push (.andThen (.opcode _) (.opcode _))
    | field hhigh hlow =>
      exact .andThen hhigh.push (.andThen hlow.push (.andThen (.opcode _) (.opcode _)))

theorem accessSpecial_inStep (pos : Pos) {index index' : Code} (hindex : index.InStep index')
    (access : Access) :
  InStep Eq (accessSpecial pos index access) (accessSpecial pos index' access)
  := by
  rw [accessSpecial, accessSpecial]
  split_ifs
  · exact .failAt pos rfl (by simp)
  · exact .andThen hindex.push (.opcode _)

/-! ### Built-in operations in step -/

/-- A value or a range with codes in step. -/
inductive RangeInStep : Range Code → Range Code → Prop where
  | single {code code' : Code} : code.InStep code' → RangeInStep (.single code) (.single code')
  | span {low low' high high' : Code} : low.InStep low' → high.InStep high' →
      RangeInStep (.span low high) (.span low' high')

/-- An item of a choice, single or a span, is in step. -/
theorem rangeItem_inStep {single span : Emit Unit} (hsingle : InStep Eq single single)
    (hspan : InStep Eq span span) {item item' : Range Code} (hitem : RangeInStep item item') :
  InStep Eq (rangeItem single span item) (rangeItem single span item')
  := by
  cases hitem with
  | single hcode => exact .andThen hcode.push hsingle
  | span hlow hhigh => exact .andThen hlow.push (.andThen hhigh.push hspan)

/-- The code of a search is answered at its end. -/
theorem look_eq (kind : LookKind) (value : Code) (items : List (Range Code)) :
  look kind value items = (do
    Emit.opcode kind.firstOpcode
    Emit.answered do
      value.push
      items.forM (rangeItem (Emit.opcode kind.singleOpcode) (Emit.opcode kind.spanOpcode))
      Emit.opcode 0x0f)
  := by
  simp only [look, Emit.answered, bind_assoc]

/-- A choice among items is in step, item by item. -/
theorem look_inStep (kind : LookKind) {value value' : Code} (hvalue : value.InStep value')
    {items items' : List (Range Code)} (hitems : List.Forall₂ RangeInStep items items') :
  InStep Eq (look kind value items) (look kind value' items')
  := by
  rw [look_eq, look_eq]
  refine .andThen (.opcode _) (.answered (.andThen hvalue.push (.andThen ?_ (.opcode _))))
  apply InStep.forM hitems
  intro item item' hitem
  exact rangeItem_inStep (.opcode _) (.opcode _) hitem

theorem forall₂_push {codes codes' : List Code} (hcodes : List.Forall₂ Code.InStep codes codes') :
  List.Forall₂ (InStep Eq) (codes.map Code.push) (codes'.map Code.push)
  := by
  rw [List.forall₂_map_left_iff, List.forall₂_map_right_iff]
  exact hcodes.imp fun _ _ => Code.InStep.push

theorem optionRel_push {code code' : Option Code} (hcode : Option.Rel Code.InStep code code') :
  Option.Rel (InStep Eq) (code.map Code.push) (code'.map Code.push)
  := by
  cases hcode with
  | none => exact .none
  | some hcode => exact .some hcode.push

/-- A lock operation is in step; it is refused in both spellings if the arguments do not suit it. -/
theorem lock_inStep (pos : Pos) (op : Lock) {args args' : List Code}
    (hargs : List.Forall₂ Code.InStep args args') (keep : Bool) :
  InStep Eq (lock pos op args keep) (lock pos op args' keep)
  := by
  rw [lock, lock]
  split_ifs
  · exact .failAt pos rfl (by simp)
  · exact .andThen (.all (forall₂_push hargs)) (.opcode _)

include h

/-- The methods that two spellings name as the code of a cog, with arguments in step. -/
def CogAlike (found found' : Method × List (Emit Unit)) : Prop :=
  found.1.keyed = found'.1.keyed ∧ List.Forall₂ (InStep Eq) found.2 found'.2

/-- Whether a cog is started with a method, and with which one, does not depend on spelling. -/
theorem cogMethod?_inStep (e : Exp) {code code' : Code} (hcode : code.InStep code') :
  InStep (Option.Rel CogAlike) (site.cogMethod? e code) (site'.cogMethod? e.keyed code')
  := by
  cases e with
  | name pos n =>
    have hrel := h.lookup? (nameKey_nameKey n).symm
    rw [Exp.keyed, cogMethod?, cogMethod?]
    revert hrel
    generalize site.lookup? n = found
    generalize site'.lookup? (nameKey n) = found'
    rintro (hmeaning | _)
    · cases hmeaning with
      | method hm => exact .pure (.some ⟨hm, .nil⟩)
      | slot | con | label | var | sub | file => exact .pure .none
    · exact .pure .none
  | call pos object index name args trap =>
    cases object with
    | none =>
      refine .bind (methodNamed_inStep h name pos) ?_
      intro m m' hm
      exact .pure (.some ⟨hm, hcode.arguments⟩)
    | some object => exact .bind (.warn pos _) fun _ _ _ => .pure .none
  | register pos reg bits => cases bits <;> exact .pure .none
  | int | float | cell | member | memory | unary | binary | assign | look | special | readOnly
  | convert | constant | string | cog | stringCompare | stringSize | lock | here | absolute =>
    exact .pure .none

/-- A cog is started in the same way in all spellings. -/
theorem startCog_inStep (pos : Pos) {cog cog' : Option Code}
    (hcog : Option.Rel Code.InStep cog cog') (e : Exp) {code code' stack stack' : Code}
    (hcode : code.InStep code') (hstack : stack.InStep stack') (keep : Bool) :
  InStep Eq (site.startCog pos cog e code stack keep)
    (site'.startCog pos cog' e.keyed code' stack' keep)
  := by
  have hsome : cog.isSome = cog'.isSome := by
    cases hcog <;> rfl
  rw [startCog, startCog, hsome]
  by_cases hboth : (cog'.isSome && keep) = true
  · rw [if_pos hboth, if_pos hboth]
    exact .failAt pos rfl (by simp)
  · rw [if_neg hboth, if_neg hboth]
    refine .bind (cogMethod?_inStep h e hcode) ?_
    intro found found' hfound
    cases hfound with
    | @some found found' hfound =>
      obtain ⟨m, arguments⟩ := found
      obtain ⟨m', arguments'⟩ := found'
      obtain ⟨hm, harguments⟩ := hfound
      have hindex : m.index = m'.index := (congrArg Method.index hm :)
      dsimp only
      rw [hindex, length_params_of_keyed hm]
      refine .andThen (.all harguments) (.andThen (.push _) (.andThen hstack.push
        (.andThen (.opcode _) ?_)))
      cases hcog with
      | none => exact .opcode _
      | some hcode => exact .andThen hcode.push (.andThen (.code _) (.opcode _))
    | none =>
      cases hcog with
      | none => exact .andThen (.opcode _) (.andThen hcode.push (.andThen hstack.push (.opcode _)))
      | some hfirst =>
        exact .andThen hfirst.push (.andThen hcode.push (.andThen hstack.push (.opcode _)))

/-- The absolute address of a name does not depend on its spelling. -/
theorem pushAbsolute_inStep (pos : Pos) (name : String) :
  InStep Eq (site.pushAbsolute pos name) (site'.pushAbsolute pos (nameKey name))
  := by
  refine .bind (lookup_inStep h name pos) ?_
  intro meaning meaning' hmeaning
  cases hmeaning with
  | @label l l' hlabel =>
    have hoffset : l.offset = l'.offset := (congrArg Label.offset hlabel :)
    have haddress : site.object.hubAddress = site'.object.hubAddress :=
      (congrArg Object.hubAddress h.object :)
    dsimp only
    rw [hoffset, haddress]
    exact .push _
  | slot | con | var | sub | method | file => exact .failAt pos rfl (by simp)

end Site

/-! ### Expressions in step -/

section

open Site

variable {site site' : Site}

mutual

/-- The code of an expression and of its keys are written in step. -/
theorem Exp.code_inStep (h : site.Alike site') :
    ∀ e : Exp, (e.code site).InStep (e.keyed.code site')
  | .int pos w => .ofPush pos (pushConstant_inStep h (.int pos w))
  | .float pos x => .ofPush pos (pushConstant_inStep h (.float pos x))
  | .name pos n => nameCode_inStep h pos n
  | .cell pos n none [] => nameCode_inStep h pos n
  | .cell pos n none (index :: rest) =>
    .ofAccess pos (accessVariable_inStep h pos n none (Exp.terms_inStep h (index :: rest)))
  | .cell pos n (some size) indices =>
    .ofAccess pos (accessVariable_inStep h pos n (some size) (Exp.terms_inStep h indices))
  | .member pos object n => .ofPush pos (pushConstant_inStep h (.member pos object n))
  | .memory pos size base index =>
    .ofAccess pos (accessMemory_inStep size (Exp.code_inStep h base) (Exp.code?_inStep h index))
  | .call pos object index method args trap => by
    have hargs := forall₂_push (Exp.codes_inStep h args)
    have hindex := optionRel_push (Exp.code?_inStep h index)
    have hcall := Code.InStep.ofValue pos (call_inStep h pos object hindex method hargs trap)
    exact { hcall with arguments := hargs }
  | .unary pos op operand => unaryCode_inStep h pos op operand (Exp.code_inStep h operand)
  | .binary pos op left right =>
    .ofPush pos (binaryTerm_inStep h pos op ⟨rfl, (Exp.code_inStep h left).push⟩
      ⟨rfl, (Exp.code_inStep h right).push⟩).push
  | .assign pos op target value =>
    .ofValue pos (assign_inStep op (Exp.code_inStep h target) (Exp.code_inStep h value))
  | .look pos kind value items =>
    .ofPush pos (look_inStep kind (Exp.code_inStep h value) (Exp.rangeCodes_inStep h items))
  | .register pos reg .all => .ofAccess pos (accessRegister_inStep pos reg .all)
  | .register pos reg (.one bit) =>
    .ofAccess pos (accessRegister_inStep pos reg (.one (Exp.code_inStep h bit)))
  | .register pos reg (.field high low) =>
    .ofAccess pos (accessRegister_inStep pos reg
      (.field (Exp.code_inStep h high) (Exp.code_inStep h low)))
  | .special pos index => .ofAccess pos (accessSpecial_inStep pos (Exp.code_inStep h index))
  | .readOnly pos source => .ofPush pos (.code source.code)
  | .convert pos conversion operand =>
    .ofPush pos (pushConstant_inStep h (.convert pos conversion operand))
  | .constant pos operand => .ofPush pos (pushConstant_inStep h (.constant pos operand))
  | .string pos text => .ofPush pos (.string text)
  | .cog pos which e stack =>
    .ofValue pos (startCog_inStep h pos (Exp.code?_inStep h which) e (Exp.code_inStep h e)
      (Exp.code_inStep h stack))
  | .stringCompare pos left right =>
    .ofPush pos (.andThen (Exp.code_inStep h left).push
      (.andThen (Exp.code_inStep h right).push (.opcode 0x17)))
  | .stringSize pos operand =>
    .ofPush pos (.andThen (Exp.code_inStep h operand).push (.opcode 0x16))
  | .lock pos op args => .ofValue pos (lock_inStep pos op (Exp.codes_inStep h args))
  | .here pos => .ofPush pos (.failAt pos rfl (by simp))
  | .absolute pos n => .ofPush pos (pushAbsolute_inStep h pos n)

theorem Exp.codes_inStep (h : site.Alike site') :
    ∀ es : List Exp, List.Forall₂ Code.InStep (Exp.codes site es)
      (Exp.codes site' (Exp.keyedList es))
  | [] => .nil
  | e :: rest => .cons (Exp.code_inStep h e) (Exp.codes_inStep h rest)

theorem Exp.terms_inStep (h : site.Alike site') :
    ∀ es : List Exp, List.Forall₂ Term.InStep (Exp.terms site es)
      (Exp.terms site' (Exp.keyedList es))
  | [] => .nil
  | e :: rest => .cons ⟨rfl, (Exp.code_inStep h e).push⟩ (Exp.terms_inStep h rest)

theorem Exp.code?_inStep (h : site.Alike site') :
    ∀ e : Option Exp, Option.Rel Code.InStep (Exp.code? site e) (Exp.code? site' (Exp.keyed? e))
  | none => .none
  | some e => .some (Exp.code_inStep h e)

theorem Exp.rangeCodes_inStep (h : site.Alike site') :
    ∀ items : List (Range Exp), List.Forall₂ RangeInStep (Exp.rangeCodes site items)
      (Exp.rangeCodes site' (Exp.keyedRanges items))
  | [] => .nil
  | .single e :: rest => .cons (.single (Exp.code_inStep h e)) (Exp.rangeCodes_inStep h rest)
  | .span low high :: rest =>
    .cons (.span (Exp.code_inStep h low) (Exp.code_inStep h high)) (Exp.rangeCodes_inStep h rest)

end

/-- The tests of an arm are in step with themselves. -/
theorem Exp.inStep_of_mem_rangeCodes {tests : List (Range Exp)} {item : Range Code}
    (h : item ∈ Exp.rangeCodes site tests) :
  ∃ item', RangeInStep item item'
  := by
  have hall : List.Forall₂ RangeInStep (Exp.rangeCodes site tests)
      (Exp.rangeCodes site (Exp.keyedRanges tests)) := Exp.rangeCodes_inStep rfl tests
  obtain ⟨i, hi⟩ := List.mem_iff_getElem?.mp h
  have hitem := forall₂_getElem? hall i
  rw [hi] at hitem
  revert hitem
  generalize (Exp.rangeCodes site (Exp.keyedRanges tests))[i]? = found
  rintro ⟨hitem⟩
  exact ⟨_, hitem⟩

/-- Expressions that are the same up to case push the same code. -/
theorem Exp.push_inStep (h : site.Alike site') (e : Exp) :
  InStep Eq (e.push site) (e.keyed.push site')
  := (Exp.code_inStep h e).push

/-- Expressions that are the same up to case are run for their effects by the same code. -/
theorem Exp.run_inStep (h : site.Alike site') (e : Exp) :
  InStep Eq (e.run site) (e.keyed.run site')
  := (Exp.code_inStep h e).value false

/-- Expressions that are the same up to case are accessed by the same code. -/
theorem Exp.access_inStep (h : site.Alike site') (e : Exp) (access : Access) :
  InStep Eq (e.access site access) (e.keyed.access site' access)
  := (Exp.code_inStep h e).access access

end

end SpinHub
