import Mathlib
import SpinHub.Proofs.CodeInStep

/-!
# Bare names

A bare identifier may be spelled as a name or as a variable without size and subscripts. `bare`
spells all of them as names. The spelling has no influence on the code, the remarks and the failures
of a body, with one exception: a cog is started with a method of the object only if the method is
spelled as a name, so there `bare` keeps the spelling.
-/

namespace SpinHub

/-! ### Bare spelling -/

/-- Whether an expression is the bare name of a method. -/
def Site.namesMethod (site : Site) (e : Exp) : Bool :=
  match e.simpleName?.bind site.lookup? with
  | some (.method _) => true
  | _ => false

mutual

/-- An expression with its bare identifiers as names. The method that a cog is started with stays
as it is written. -/
def Exp.bare (site : Site) : Exp → Exp
  | .int pos w => .int pos w
  | .float pos x => .float pos x
  | .name pos n => .name pos n
  | .cell pos n none [] => .name pos n
  | .cell pos n size indices => .cell pos n size (Exp.bareList site indices)
  | .member pos object n => .member pos object n
  | .memory pos size base index => .memory pos size (base.bare site) (Exp.bare? site index)
  | .call pos object index method args trap =>
    .call pos object (Exp.bare? site index) method (Exp.bareList site args) trap
  | .unary pos op operand => .unary pos op (operand.bare site)
  | .binary pos op left right => .binary pos op (left.bare site) (right.bare site)
  | .assign pos op target value => .assign pos op (target.bare site) (value.bare site)
  | .look pos kind value items => .look pos kind (value.bare site) (Exp.bareRanges site items)
  | .register pos reg .all => .register pos reg .all
  | .register pos reg (.one bit) => .register pos reg (.one (bit.bare site))
  | .register pos reg (.field high low) =>
    .register pos reg (.field (high.bare site) (low.bare site))
  | .special pos index => .special pos (index.bare site)
  | .readOnly pos source => .readOnly pos source
  | .convert pos conversion operand => .convert pos conversion (operand.bare site)
  | .constant pos operand => .constant pos (operand.bare site)
  | .string pos text => .string pos text
  | .cog pos which e stack =>
    .cog pos (Exp.bare? site which) (if site.namesMethod e then e else e.bare site)
      (stack.bare site)
  | .stringCompare pos left right => .stringCompare pos (left.bare site) (right.bare site)
  | .stringSize pos operand => .stringSize pos (operand.bare site)
  | .lock pos op args => .lock pos op (Exp.bareList site args)
  | .here pos => .here pos
  | .absolute pos n => .absolute pos n

/-- Expressions with their bare identifiers as names. -/
def Exp.bareList (site : Site) : List Exp → List Exp
  | [] => []
  | e :: rest => e.bare site :: Exp.bareList site rest

/-- An optional expression with its bare identifiers as names. -/
def Exp.bare? (site : Site) : Option Exp → Option Exp
  | none => none
  | some e => some (e.bare site)

/-- Values and ranges with their bare identifiers as names. -/
def Exp.bareRanges (site : Site) : List (Range Exp) → List (Range Exp)
  | [] => []
  | .single e :: rest => .single (e.bare site) :: Exp.bareRanges site rest
  | .span low high :: rest =>
    .span (low.bare site) (high.bare site) :: Exp.bareRanges site rest

end

/-- The control of a loop with its bare identifiers as names. -/
def LoopControl.bare (site : Site) : LoopControl → LoopControl
  | .forever => .forever
  | .times count => .times (count.bare site)
  | .before negated condition => .before negated (condition.bare site)
  | .after negated condition => .after negated (condition.bare site)
  | .fromTo counter first last step =>
    .fromTo (counter.bare site) (first.bare site) (last.bare site) (Exp.bare? site step)

mutual

/-- A statement with its bare identifiers as names. -/
def Stmt.bare (site : Site) : Stmt → Stmt
  | .exp pos e => .exp pos (e.bare site)
  | .ret pos value => .ret pos (Exp.bare? site value)
  | .abort pos value => .abort pos (Exp.bare? site value)
  | .branch pos negated condition yes none =>
    .branch pos negated (condition.bare site) (Stmt.bareBlock site yes) none
  | .branch pos negated condition yes (some no) =>
    .branch pos negated (condition.bare site) (Stmt.bareBlock site yes)
      (some (Stmt.bareBlock site no))
  | .loop pos control body => .loop pos (control.bare site) (Stmt.bareBlock site body)
  | .next pos => .next pos
  | .quit pos => .quit pos
  | .select pos value arms other =>
    .select pos (value.bare site) (Stmt.bareArms site arms) (Stmt.bareBlock site other)
  | .reboot pos => .reboot pos
  | .fillMove pos op args => .fillMove pos op (Exp.bareList site args)
  | .wait pos op args => .wait pos op (Exp.bareList site args)
  | .clkset pos mode frequency => .clkset pos (mode.bare site) (frequency.bare site)
  | .cogstop pos cog => .cogstop pos (cog.bare site)

/-- Statements with their bare identifiers as names. -/
def Stmt.bareBlock (site : Site) : List Stmt → List Stmt
  | [] => []
  | statement :: rest => statement.bare site :: Stmt.bareBlock site rest

/-- The arms of a CASE with their bare identifiers as names. -/
def Stmt.bareArms (site : Site) : List Arm → List Arm
  | [] => []
  | .mk tests body :: rest =>
    .mk (Exp.bareRanges site tests) (Stmt.bareBlock site body) :: Stmt.bareArms site rest

end

/-! ### What an expression is -/

variable {site : Site}

/-- The bare spelling of an expression stands at the same position. -/
@[simp]
theorem Exp.bare_pos (site : Site) (e : Exp) :
  (e.bare site).pos = e.pos
  := by
  cases e with
  | cell pos n size indices =>
    cases size with
    | none => cases indices <;> rfl
    | some size => rfl
  | register pos reg bits => cases bits <;> rfl
  | _ => rfl

/-- The simple name of an expression is that of its bare spelling. -/
@[simp]
theorem Exp.simpleName?_bare (site : Site) (e : Exp) :
  (e.bare site).simpleName? = e.simpleName?
  := by
  cases e with
  | cell pos n size indices =>
    cases size with
    | none => cases indices <;> rfl
    | some size => rfl
  | register pos reg bits => cases bits <;> rfl
  | _ => rfl

namespace Site

/-- A label is named in either spelling. -/
@[simp]
theorem labelOf_bare (site : Site) (e : Exp) :
  site.labelOf (e.bare site) = site.labelOf e
  := by
  rw [labelOf, labelOf, Exp.simpleName?_bare, Exp.bare_pos]

/-- An expression and its bare spelling have one value, however constants are read. -/
theorem evalWith_bare (site : Site) (readCon : ConReader) :
    ∀ e : Exp, site.evalWith readCon (e.bare site) = site.evalWith readCon e
  | .cell pos n none [] => rfl
  | .cell pos n none (_ :: _) => rfl
  | .cell pos n (some size) indices => rfl
  | .unary pos op operand => by
    have ih := evalWith_bare site readCon operand
    cases op <;> simp only [Exp.bare, evalWith, ih, labelOf_bare]
  | .binary pos op left right => by
    simp only [Exp.bare, evalWith, evalWith_bare site readCon left,
      evalWith_bare site readCon right]
  | .register pos reg .all => rfl
  | .register pos reg (.one bit) => rfl
  | .register pos reg (.field high low) => rfl
  | .convert pos conversion operand => by
    simp only [Exp.bare, evalWith, evalWith_bare site readCon operand, Exp.bare_pos]
  | .constant pos operand => evalWith_bare site readCon operand
  | .int _ _ | .float _ _ | .name _ _ | .member _ _ _ | .memory _ _ _ _ | .call _ _ _ _ _ _
  | .assign _ _ _ _ | .look _ _ _ _ | .special _ _ | .readOnly _ _ | .string _ _ | .cog _ _ _ _
  | .stringCompare _ _ _ | .stringSize _ _ | .lock _ _ _ | .here _ | .absolute _ _ => rfl

/-- An expression and its bare spelling have one value. -/
@[simp]
theorem eval_bare (site : Site) (e : Exp) :
  site.eval (e.bare site) = site.eval e
  := evalWith_bare site site.conValue e

/-- An expression is constant in both spellings or in none. -/
@[simp]
theorem isConstant_bare (site : Site) :
    ∀ e : Exp, site.isConstant (e.bare site) = site.isConstant e
  | .cell _ _ none [] | .cell _ _ none (_ :: _) | .cell _ _ (some _) _ => rfl
  | .unary pos op operand => by
    simp only [Exp.bare, isConstant, isConstant_bare site operand]
  | .binary pos op left right => by
    simp only [Exp.bare, isConstant, isConstant_bare site left, isConstant_bare site right]
  | .register _ _ .all | .register _ _ (.one _) | .register _ _ (.field _ _) => rfl
  | .int _ _ | .float _ _ | .name _ _ | .member _ _ _ | .memory _ _ _ _ | .call _ _ _ _ _ _
  | .assign _ _ _ _ | .look _ _ _ _ | .special _ _ | .readOnly _ _ | .convert _ _ _
  | .constant _ _ | .string _ _ | .cog _ _ _ _ | .stringCompare _ _ _ | .stringSize _ _
  | .lock _ _ _ | .here _ | .absolute _ _ => rfl

/-- A cell has one size in both spellings. -/
@[simp]
theorem cellSize_bare (site : Site) (e : Exp) :
  site.cellSize (e.bare site) = site.cellSize e
  := by
  cases e with
  | cell pos n size indices =>
    cases size with
    | none => cases indices <;> rfl
    | some size => rfl
  | register pos reg bits => cases bits <;> rfl
  | _ => rfl

/-- A bare identifier that is no method is not launched in either spelling. -/
theorem cogMethod?_bare {e : Exp} (h : site.namesMethod e = false) (code : Code) :
  site.cogMethod? (e.bare site) code = site.cogMethod? e code
  := by
  cases e with
  | cell pos n size indices =>
    cases size with
    | some size => rfl
    | none =>
      cases indices with
      | cons index rest => rfl
      | nil =>
        -- only a name is looked up, and it is no method
        change site.cogMethod? (.name pos n) code = pure none
        rw [namesMethod, Exp.simpleName?, Option.bind_some] at h
        rw [cogMethod?]
        cases hmeaning : site.lookup? n with
        | none => rfl
        | some meaning =>
          rw [hmeaning] at h
          cases meaning with
          | method method => cases h
          | _ => rfl
  | register pos reg bits => cases bits <;> rfl
  | call pos object index method args trap => cases object <;> rfl
  | _ => rfl

end Site

/-! ### Code -/

/-- Terms with one push whose expressions are spelled in two ways. -/
structure Term.Respelled (site : Site) (term term' : Term) : Prop where
  pos : term.exp.pos = term'.exp.pos
  isConstant : site.isConstant term.exp = site.isConstant term'.exp
  eval : site.eval term.exp = site.eval term'.exp
  push : term.push = term'.push

theorem Term.Respelled.rfl {term : Term} :
  term.Respelled site term
  := ⟨.refl _, .refl _, .refl _, .refl _⟩

namespace Site

/-- Folding depends on an expression through its value and on whether it is constant. -/
theorem folded_congr {e e' : Exp} (hconstant : site.isConstant e = site.isConstant e')
    (heval : site.eval e = site.eval e') (code : Emit Unit) :
  site.folded e code = site.folded e' code
  := by
  rw [folded, folded, hconstant, heval]

/-- Operands with one meaning give operations with one meaning. -/
theorem binaryTerm_respelled (pos : Pos) (op : BinaryOp) {left left' right right' : Term}
    (hleft : left.Respelled site left') (hright : right.Respelled site right') :
  Term.Respelled site (site.binaryTerm pos op left right) (site.binaryTerm pos op left' right')
  := by
  have hconstant : site.isConstant (.binary pos op left.exp right.exp)
      = site.isConstant (.binary pos op left'.exp right'.exp) := by
    rw [isConstant, isConstant, hleft.isConstant, hright.isConstant]
  have heval : site.eval (.binary pos op left.exp right.exp)
      = site.eval (.binary pos op left'.exp right'.exp) := by
    have hl := hleft.eval
    have hr := hright.eval
    rw [eval] at hl hr ⊢
    rw [evalWith, hl, hr]
    rfl
  refine ⟨.refl _, hconstant, heval, ?_⟩
  rw [binaryTerm, binaryTerm, hleft.push, hright.push]
  exact folded_congr hconstant heval _

/-- One more dimension of a subscript. -/
theorem nextIndex_respelled {index index' term term' : Term}
    (hindex : index.Respelled site index') (hterm : term.Respelled site term')
    (extent : Nat) :
  Term.Respelled site (site.nextIndex index (term, extent)) (site.nextIndex index' (term', extent))
  := by
  rw [nextIndex, nextIndex, hterm.pos]
  exact binaryTerm_respelled _ _ (binaryTerm_respelled _ _ hindex .rfl) hterm

/-- All dimensions of a subscript, by induction on the terms with their extents. -/
theorem foldl_nextIndex_respelled {index index' : Term} (hindex : index.Respelled site index')
    {terms terms' : List Term} (hterms : List.Forall₂ (Term.Respelled site) terms terms')
    (extents : List Nat) :
  Term.Respelled site ((terms.zip extents).foldl site.nextIndex index)
    ((terms'.zip extents).foldl site.nextIndex index')
  := by
  induction hterms generalizing index index' extents with
  | nil => exact hindex
  | cons hterm _ ih =>
    cases extents with
    | nil => exact hindex
    | cons extent extents => exact ih (nextIndex_respelled hindex hterm extent) extents

/-- Subscripts are combined to the same index, or refused in the same way. -/
theorem subscript_respelled (extents : List Nat) {terms terms' : List Term}
    (h : List.Forall₂ (Term.Respelled site) terms terms') :
  site.subscript extents terms = site.subscript extents terms'
  := by
  cases h with
  | nil => rfl
  | cons hfirst hrest =>
    cases hrest with
    | nil => rw [subscript, subscript, hfirst.push]
    | @cons second second' rest rest' hsecond hrest =>
      have hterms := List.Forall₂.cons hfirst (.cons hsecond hrest)
      have hextra := forall₂_getElem? hterms extents.length
      have hlast := forall₂_getLastD (.cons hsecond hrest) hsecond
      have hindex := foldl_nextIndex_respelled hfirst (.cons hsecond hrest) extents.tail
      rw [subscript, subscript, hterms.length_eq, hlast.pos, hindex.push]
      revert hextra
      generalize (_ :: second :: rest)[extents.length]? = extra
      generalize (_ :: second' :: rest')[extents.length]? = extra'
      rintro (hextra | _)
      · dsimp only
        rw [hextra.pos]
      · rfl

/-- Indices with one meaning lead to one access. -/
theorem accessVariable_respelled (pos : Pos) (name : String) (size : Option Size)
    {terms terms' : List Term} (h : List.Forall₂ (Term.Respelled site) terms terms') :
  site.accessVariable pos name size terms = site.accessVariable pos name size terms'
  := by
  funext access
  simp only [accessVariable, subscript_respelled _ h]

/-- A unary operation has one code for both spellings of its operand. -/
theorem unaryCode_bare (site : Site) (pos : Pos) (op : UnaryOp) (operand : Exp) (code : Code) :
  site.unaryCode pos op (operand.bare site) code = site.unaryCode pos op operand code
  := by
  have hfolded (emit : Emit Unit) : site.folded (.unary pos op (operand.bare site)) emit
      = site.folded (.unary pos op operand) emit :=
    folded_congr (site.isConstant_bare (.unary pos op operand))
      (site.eval_bare (.unary pos op operand)) emit
  simp only [unaryCode, hfolded, unary, cellSize_bare]

theorem pushConstant_congr {e e' : Exp} (h : site.eval e = site.eval e') :
  site.pushConstant e = site.pushConstant e'
  := by
  rw [pushConstant, pushConstant, h]

/-- A cog is started in the same way, as long as the name of a method is not respelled. -/
theorem startCog_bare (site : Site) (pos : Pos) (cog : Option Code) (e : Exp) (code stack : Code) :
  site.startCog pos cog (if site.namesMethod e then e else e.bare site) code stack
    = site.startCog pos cog e code stack
  := by
  split_ifs with h
  · rfl
  · funext keep
    simp only [startCog, cogMethod?_bare (Bool.eq_false_of_not_eq_true h)]

end Site

mutual

/-- Spelling bare identifiers as names does not change the code. -/
theorem Exp.code_bare (site : Site) : ∀ e : Exp, (e.bare site).code site = e.code site
  | .int _ _ | .float _ _ | .name _ _ | .member _ _ _ | .readOnly _ _ | .string _ _ | .here _
  | .absolute _ _ => rfl
  | .cell pos n none [] => rfl
  | .cell pos n none (index :: rest) => by
    have haccess := Site.accessVariable_respelled pos n none (Exp.terms_bare site (index :: rest))
    exact congrArg (Code.ofAccess pos) haccess
  | .cell pos n (some size) indices => by
    have haccess := Site.accessVariable_respelled pos n (some size) (Exp.terms_bare site indices)
    exact congrArg (Code.ofAccess pos) haccess
  | .memory pos size base index => by
    rw [Exp.bare, Exp.code, Exp.code_bare site base, Exp.code?_bare site index, Exp.code]
  | .call pos object index method args trap => by
    rw [Exp.bare, Exp.code, Exp.codes_bare site args, Exp.code?_bare site index, Exp.code]
  | .unary pos op operand => by
    rw [Exp.bare, Exp.code, Exp.code_bare site operand, Site.unaryCode_bare, Exp.code]
  | .binary pos op left right => by
    have hterm (e : Exp) (h : (e.bare site).code site = e.code site) :
        Term.Respelled site ⟨e.bare site, ((e.bare site).code site).push⟩
          ⟨e, (e.code site).push⟩ :=
      ⟨e.bare_pos site, site.isConstant_bare e, site.eval_bare e, by rw [h]⟩
    have hbinary := Site.binaryTerm_respelled pos op (hterm left (Exp.code_bare site left))
      (hterm right (Exp.code_bare site right))
    rw [Exp.bare, Exp.code, hbinary.push, Exp.code]
  | .assign pos op target value => by
    rw [Exp.bare, Exp.code, Exp.code_bare site target, Exp.code_bare site value, Exp.code]
  | .look pos kind value items => by
    rw [Exp.bare, Exp.code, Exp.code_bare site value, Exp.rangeCodes_bare site items, Exp.code]
  | .register pos reg .all => rfl
  | .register pos reg (.one bit) => by
    rw [Exp.bare, Exp.code, Exp.code_bare site bit, Exp.code]
  | .register pos reg (.field high low) => by
    rw [Exp.bare, Exp.code, Exp.code_bare site high, Exp.code_bare site low, Exp.code]
  | .special pos index => by
    rw [Exp.bare, Exp.code, Exp.code_bare site index, Exp.code]
  | .convert pos conversion operand => by
    have heval := site.eval_bare (.convert pos conversion operand)
    rw [Exp.bare, Exp.code, Exp.code]
    rw [Exp.bare] at heval
    rw [Site.pushConstant_congr heval]
  | .constant pos operand => by
    have heval := site.eval_bare (.constant pos operand)
    rw [Exp.bare, Exp.code, Exp.code]
    rw [Exp.bare] at heval
    rw [Site.pushConstant_congr heval]
  | .cog pos which e stack => by
    have hcode : (if site.namesMethod e then e else e.bare site).code site = e.code site := by
      split_ifs
      · rfl
      · exact Exp.code_bare site e
    rw [Exp.bare, Exp.code, Exp.code?_bare site which, hcode, Exp.code_bare site stack,
      Site.startCog_bare, Exp.code]
  | .stringCompare pos left right => by
    rw [Exp.bare, Exp.code, Exp.code_bare site left, Exp.code_bare site right, Exp.code]
  | .stringSize pos operand => by
    rw [Exp.bare, Exp.code, Exp.code_bare site operand, Exp.code]
  | .lock pos op args => by
    rw [Exp.bare, Exp.code, Exp.codes_bare site args, Exp.code]

/-- Expressions and their bare spellings have the same codes. -/
theorem Exp.codes_bare (site : Site) :
    ∀ es : List Exp, Exp.codes site (Exp.bareList site es) = Exp.codes site es
  | [] => rfl
  | e :: rest => by
    rw [Exp.bareList, Exp.codes, Exp.code_bare site e, Exp.codes_bare site rest, Exp.codes]

/-- Indices and their bare spellings have one meaning. -/
theorem Exp.terms_bare (site : Site) :
    ∀ es : List Exp, List.Forall₂ (Term.Respelled site) (Exp.terms site (Exp.bareList site es))
      (Exp.terms site es)
  | [] => .nil
  | e :: rest => by
    refine .cons ⟨e.bare_pos site, site.isConstant_bare e, site.eval_bare e, ?_⟩
      (Exp.terms_bare site rest)
    rw [Exp.code_bare site e]

theorem Exp.code?_bare (site : Site) :
    ∀ e : Option Exp, Exp.code? site (Exp.bare? site e) = Exp.code? site e
  | none => rfl
  | some e => by
    rw [Exp.bare?, Exp.code?, Exp.code_bare site e, Exp.code?]

/-- Items and their bare spellings have the same codes. -/
theorem Exp.rangeCodes_bare (site : Site) :
    ∀ items : List (Range Exp),
      Exp.rangeCodes site (Exp.bareRanges site items) = Exp.rangeCodes site items
  | [] => rfl
  | .single e :: rest => by
    rw [Exp.bareRanges, Exp.rangeCodes, Exp.code_bare site e, Exp.rangeCodes_bare site rest,
      Exp.rangeCodes]
  | .span low high :: rest => by
    rw [Exp.bareRanges, Exp.rangeCodes, Exp.code_bare site low, Exp.code_bare site high,
      Exp.rangeCodes_bare site rest, Exp.rangeCodes]

end

namespace Exp

/-- An expression and its bare spelling push the same code. -/
@[simp]
theorem push_bare (site : Site) (e : Exp) :
  (e.bare site).push site = e.push site
  := by
  rw [Exp.push, Exp.code_bare, Exp.push]

@[simp]
theorem run_bare (site : Site) (e : Exp) :
  (e.bare site).run site = e.run site
  := by
  rw [Exp.run, Exp.code_bare, Exp.run]

/-- An expression and its bare spelling are accessed by the same code. -/
@[simp]
theorem access_bare (site : Site) (e : Exp) (access : Access) :
  (e.bare site).access site access = e.access site access
  := by
  rw [Exp.access, Exp.code_bare, Exp.access]

end Exp

/-! ### Statements -/

namespace Site

theorem leaveMethod_bare (site : Site) (bare : UInt8) (value : Option Exp) :
  site.leaveMethod bare (Exp.bare? site value) = site.leaveMethod bare value
  := by
  cases value with
  | none => rfl
  | some e => rw [Exp.bare?, leaveMethod, Exp.push_bare, leaveMethod]

theorem builtin_bare (site : Site) (opcode : UInt8) (args : List Exp) :
  site.builtin opcode (Exp.bareList site args) = site.builtin opcode args
  := by
  have hargs : (Exp.bareList site args).forM (fun e => e.push site)
      = args.forM fun e => e.push site := by
    induction args with
    | nil => rfl
    | cons e rest ih =>
      rw [List.forM_eq_forM] at ih ⊢
      rw [Exp.bareList, List.forM_cons, List.forM_cons, Exp.push_bare, ih]
  rw [builtin, hargs, builtin]

/-- The passes of a loop are the same for both spellings of its control. -/
theorem passes_bare (site : Site) (loop : Loop) (control : LoopControl) (body : Emit Unit) :
  site.passes loop (control.bare site) body = site.passes loop control body
  := by
  cases control with
  | fromTo counter first last step =>
    cases step <;> simp only [LoopControl.bare, Exp.bare?, passes, Exp.push_bare,
      Exp.access_bare, Option.isSome]
  | _ => simp only [LoopControl.bare, passes, Exp.push_bare]

theorem loop_bare (site : Site) (control : LoopControl) (body : Emit Unit) :
  site.loop (control.bare site) body = site.loop control body
  := by
  simp only [loop, passes_bare]
  cases control <;> rfl

/-- A branch is the same for both spellings of its condition. -/
theorem branch_bare (site : Site) (negated : Bool) (condition : Exp) (yes : Emit Unit)
    (no : Option (Emit Unit)) :
  site.branch negated (condition.bare site) yes no = site.branch negated condition yes no
  := by
  rw [branch, Exp.push_bare, branch]

/-- The tests of the arms may be spelled in either way. -/
theorem select_bare (site : Site) (value : Exp) (arms : List (List (Range Exp) × Emit Unit))
    (other : Emit Unit) :
  site.select (value.bare site) (arms.map fun arm => (Exp.bareRanges site arm.1, arm.2)) other
    = site.select value arms other
  := by
  have htests (tests : List (Range Exp)) (target : Target) :
      site.armTests (Exp.bareRanges site tests) target = site.armTests tests target := by
    rw [armTests, Exp.rangeCodes_bare, armTests]
  simp only [select, Exp.push_bare, List.mapM_map, List.zip_map_left, List.forM_eq_forM,
    List.forM_map, Prod.map, htests, id]
  rfl

/-- A selection is the same for both spellings of its value and its tests. -/
theorem cases_bare (site : Site) (value : Exp) (arms : List (List (Range Exp) × Emit Unit))
    (other : Emit Unit) :
  site.cases (value.bare site) (arms.map fun arm => (Exp.bareRanges site arm.1, arm.2)) other
    = site.cases value arms other
  := by
  rw [cases, select_bare, cases]

end Site

mutual

/-- A statement and its bare spelling have the same code. -/
theorem Stmt.emit_bare (site : Site) :
    ∀ statement : Stmt, (statement.bare site).emit site = statement.emit site
  | .exp pos e => by
    rw [Stmt.bare, Stmt.emit, Exp.run_bare, Stmt.emit]
  | .ret pos value => by
    rw [Stmt.bare, Stmt.emit, Site.leaveMethod_bare, Stmt.emit]
  | .abort pos value => by
    rw [Stmt.bare, Stmt.emit, Site.leaveMethod_bare, Stmt.emit]
  | .branch pos negated condition yes none => by
    rw [Stmt.bare, Stmt.emit, Site.branch_bare, Stmt.block_bare site yes, Stmt.emit]
  | .branch pos negated condition yes (some no) => by
    rw [Stmt.bare, Stmt.emit, Site.branch_bare, Stmt.block_bare site yes,
      Stmt.block_bare site no, Stmt.emit]
  | .loop pos control body => by
    rw [Stmt.bare, Stmt.emit, Site.loop_bare, Stmt.block_bare site body, Stmt.emit]
  | .select pos value arms other => by
    rw [Stmt.bare, Stmt.emit, Stmt.arms_bare site arms, Stmt.block_bare site other,
      Site.cases_bare, Stmt.emit]
  | .next pos => rfl
  | .quit pos => rfl
  | .reboot pos => rfl
  | .fillMove pos op args => by
    rw [Stmt.bare, Stmt.emit, Site.builtin_bare, Stmt.emit]
  | .wait pos op args => by
    rw [Stmt.bare, Stmt.emit, Site.builtin_bare, Stmt.emit]
  | .clkset pos mode frequency => site.builtin_bare 0x20 [mode, frequency]
  | .cogstop pos cog => site.builtin_bare 0x21 [cog]

/-- A block and its bare spelling have the same code. -/
theorem Stmt.block_bare (site : Site) :
    ∀ body : List Stmt, Stmt.block site (Stmt.bareBlock site body) = Stmt.block site body
  | [] => rfl
  | statement :: rest => by
    rw [Stmt.bareBlock, Stmt.block, Stmt.emit_bare site statement,
      Stmt.block_bare site rest, Stmt.block]

/-- Arms and their bare spellings have bodies with the same code. -/
theorem Stmt.arms_bare (site : Site) :
    ∀ arms : List Arm, Stmt.arms site (Stmt.bareArms site arms)
      = (Stmt.arms site arms).map fun arm => (Exp.bareRanges site arm.1, arm.2)
  | [] => rfl
  | .mk tests body :: rest => by
    rw [Stmt.bareArms, Stmt.arms, Stmt.block_bare site body, Stmt.arms_bare site rest,
      Stmt.arms, List.map_cons]

end

/-! ### Bodies -/

namespace Site

/-- The bytes of a body that starts at `base`, with the remarks made on the way. -/
def bodyCode (site : Site) (pos : Pos) (base : Int) (limit : Nat) (body : List Stmt) :
    Eval (Bytes × List (Pos × String)) := do
  let draft ← site.draft body
  let code ← liftAt pos (draft.finish base limit)
  return (code, draft.warnings)

/-- Statements that differ in no more than the spelling of bare identifiers have the same draft or
the same failure, and so the same bytes and remarks. Only a method that a cog is started with has to
be spelled alike. -/
theorem bodyCode_respelled (site : Site) {body body' : List Stmt}
    (h : Stmt.bareBlock site body = Stmt.bareBlock site body') :
  site.draft body = site.draft body'
  ∧ ∀ (pos : Pos) (base : Int) (limit : Nat),
    site.bodyCode pos base limit body = site.bodyCode pos base limit body'
  := by
  have hblock : Stmt.block site body = Stmt.block site body' := by
    rw [← Stmt.block_bare, h, Stmt.block_bare]
  have hdraft : site.draft body = site.draft body' := by
    rw [draft, hblock, draft]
  refine ⟨hdraft, ?_⟩
  intro pos base limit
  rw [bodyCode, hdraft, bodyCode]

/-- A method with a variable and a method of its object. -/
def workerSite : Site :=
  { objects := [
      { file := "worker"
        names := [("STEP", .var 0), ("RUN", .method 0)]
        vars := [{ name := { name := "step" }, size := .word, dims := [] }]
        methods := [
          { name := { name := "run" }, isPublic := true, result := none, params := []
            locals := [], body := [], index := 1 }] }]
    obj := 0 }

/-- A body that adds to a variable, calls a method and starts a cog at the address that the variable
holds, with the names in a given spelling. -/
def workerBody (spelled : String → Exp) : List Stmt :=
  [.exp {} (.assign {} (some .add) (spelled "step") (.unary {} .preIncrement (spelled "step"))),
    .exp {} (spelled "run"),
    .exp {} (.cog {} none (spelled "step") (.unary {} .addressOf (spelled "step")))]

/-- The body has one code of 16 bytes, whether its names are bare or spelled as cells. -/
theorem bodyCode_respelled_worker :
  Stmt.bareBlock workerSite (workerBody (.name {}))
    = Stmt.bareBlock workerSite (workerBody (.cell {} · none []))
  ∧ workerSite.draft (workerBody (.name {})) = workerSite.draft (workerBody (.cell {} · none []))
  ∧ ((workerSite.bodyCode {} 0 64 (workerBody (.cell {} · none []))).run.run []).1
    = .ok ([0xaa, 0x00, 0xa4, 0xaa, 0x00, 0x4c, 0x01, 0x05, 0x01, 0x34, 0xa8, 0x00, 0xab, 0x00,
      0x2c, 0x32], [])
  := by
  have hname : workerSite.namesMethod (.name {} "step") = false := by decide +kernel
  have hcell : workerSite.namesMethod (.cell {} "step" none []) = false := by decide +kernel
  have hbare : Stmt.bareBlock workerSite (workerBody (.name {}))
      = Stmt.bareBlock workerSite (workerBody (.cell {} · none [])) := by
    simp only [workerBody, Stmt.bareBlock, Stmt.bare, Exp.bare, hname, hcell,
      Bool.false_eq_true, if_false]
  obtain ⟨hdraft, hcode⟩ := bodyCode_respelled workerSite hbare
  refine ⟨hbare, hdraft, ?_⟩
  rw [← hcode]
  decide +kernel

/-- A body that starts a cog. -/
def launchBody (code : Exp) : List Stmt := [.exp {} (.cog {} none code (.int {} 0))]

/-- A cog is started with a method if the method is spelled as a name. In the variable syntax the
method is called, and the cog is started with its result. -/
theorem launch_depends_on_spelling :
  ((workerSite.bodyCode {} 0 64 (launchBody (.name {} "run"))).run.run []).1
    = .ok ([0x36, 0x35, 0x15, 0x2c, 0x32], [])
  ∧ ((workerSite.bodyCode {} 0 64 (launchBody (.cell {} "run" none []))).run.run []).1
    = .ok ([0x34, 0x00, 0x05, 0x01, 0x35, 0x2c, 0x32], [])
  := by
  constructor <;> decide +kernel

end Site

end SpinHub
