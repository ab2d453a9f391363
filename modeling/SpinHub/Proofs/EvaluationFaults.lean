import Mathlib
import SpinHub.Dat.Instruction
import SpinHub.Proofs.Runs

/-!
# Faults of evaluation

Evaluating an expression fails only with causes that have to do with values and the names of
values. So the causes that placing a DAT entry can fail with never come from evaluating an
expression or from assembling an instruction.
-/

namespace SpinHub

/-- The causes that stand for an entry or a label in the wrong place: a moved label, an origin or
a reservation out of range, a program over its limit, and data with a bad size or count. -/
def Cause.IsPlacing : Cause → Prop
  | .labelMoved _ | .originOverflow _ | .cogAddressOutOfRange | .datTooLarge _ | .badDataSize _
  | .dataBelowAlignment | .negativeDataCount _ => True
  | _ => False

/-- The causes that stand for an expression without a value: a name that is unknown or is not that
of a constant, an operand of the wrong type, a division by zero, a misaligned address. -/
def Cause.IsValue : Cause → Prop
  | .unknownSymbol _ | .hereOutsideDat | .registerInConstant | .expectedConstant | .notAConstant _
  | .constantOfNonObject _ | .memberNotAConstant _ _ | .expectedLabel | .constantNotALabel _
  | .badOperator | .circularReference _ | .floatWhereInt | .intWhereFloat | .mixedOperands
  | .divideByZero | .misalignedAddress _ => True
  | _ => False

/-- Evaluating does not fail as placing does. -/
theorem Cause.IsValue.not_isPlacing {cause : Cause} (h : cause.IsValue) :
  ¬ cause.IsPlacing
  := by
  intro hplacing
  cases cause <;> simp only [IsValue, IsPlacing] at h hplacing

variable {σ α β : Type}

/-- Every failure of the computation has a cause of the given sort. -/
def FailsOnly (p : Cause → Prop) (x : ExceptT Fault (StateM σ) α) : Prop :=
  ∀ s fault s', Fails x s fault s' → p fault.cause

namespace FailsOnly

variable {p q : Cause → Prop}

/-- What fails for some causes only fails for more causes only. -/
theorem mono {x : ExceptT Fault (StateM σ) α} (h : FailsOnly p x)
    (hpq : ∀ {cause}, p cause → q cause) :
  FailsOnly q x
  := fun s fault s' hfail => hpq (h s fault s' hfail)

theorem pure (a : α) :
  FailsOnly p (pure a : ExceptT Fault (StateM σ) α)
  := nofun

theorem failAt (pos : Pos) {cause : Cause} (h : p cause) :
  FailsOnly p (failAt pos cause : ExceptT Fault (StateM σ) α)
  := by
  intro s fault s' hfail
  obtain ⟨rfl, rfl⟩ := fails_failAt.mp hfail
  exact h

/-- Parts that fail for some causes only do so in turn. -/
theorem bind {x : ExceptT Fault (StateM σ) α} {f : α → ExceptT Fault (StateM σ) β}
    (hx : FailsOnly p x) (hf : ∀ a, FailsOnly p (f a)) :
  FailsOnly p (x >>= f)
  := by
  intro s fault s' hfail
  rcases fails_bind.mp hfail with hfirst | ⟨a, m, _, hsecond⟩
  · apply hx _ _ _ hfirst
  · apply hf a _ _ _ hsecond

theorem liftAt (pos : Pos) {e : Except Cause α} (h : ∀ cause, e = .error cause → p cause) :
  FailsOnly p (liftAt pos e : ExceptT Fault (StateM σ) α)
  := by
  intro s fault s' hfail
  obtain ⟨cause, hcause, rfl, rfl⟩ := fails_liftAt.mp hfail
  apply h cause hcause

end FailsOnly

/-! ### Operators -/

theorem error_of_map {e : Except Cause α} {f : α → β} {cause : Cause}
    (h : e.map f = .error cause) :
  e = .error cause
  := by
  cases e with
  | error cause' =>
    cases h
    rfl
  | ok a => cases h

/-- An operator on one word fails only if it is none that computes. -/
theorem Word.unary_cause {op : UnaryOp} {w : Word} {cause : Cause}
    (h : w.unary op = .error cause) :
  cause = .badOperator
  := by
  cases op <;> cases h <;> rfl

theorem Single.unary_cause {op : UnaryOp} {x : Single} {cause : Cause}
    (h : x.unary op = .error cause) :
  cause = .badOperator
  := by
  cases op <;> cases h <;> rfl

/-- An operator on two floats fails only if it is none on floats. -/
theorem Single.binary_cause {op : BinaryOp} {a b : Single} {cause : Cause}
    (h : a.binary op b = .error cause) :
  cause = .badOperator
  := by
  cases op <;> cases h <;> rfl

/-- An operator on two words fails only for a divisor of zero. -/
theorem Word.binary_cause {op : BinaryOp} {a b : Word} {cause : Cause}
    (h : a.binary op b = .error cause) :
  cause = .divideByZero
  := by
  cases op with
  | divide | modulo =>
    simp only [Word.binary] at h
    split_ifs at h
    cases h
    rfl
  | _ => cases h

namespace Value

/-- A value fails to be a word for the causes of values. -/
theorem toWord_cause {v : Value} {cause : Cause} (h : v.toWord = .error cause) :
  cause.IsValue
  := by
  cases v with
  | int w => cases h
  | float x =>
    cases h
    trivial

theorem toSingle_cause {v : Value} {cause : Cause} (h : v.toSingle = .error cause) :
  cause.IsValue
  := by
  cases v with
  | int w =>
    cases h
    trivial
  | float x => cases h

/-- An operator on one value fails for the causes of values. -/
theorem unary_cause {op : UnaryOp} {v : Value} {cause : Cause} (h : v.unary op = .error cause) :
  cause.IsValue
  := by
  cases v with
  | int w =>
    rw [Word.unary_cause (error_of_map h)]
    trivial
  | float x =>
    rw [Single.unary_cause (error_of_map h)]
    trivial

/-- An operator on two values fails for the causes of values. -/
theorem binary_cause {op : BinaryOp} {v w : Value} {cause : Cause}
    (h : v.binary op w = .error cause) :
  cause.IsValue
  := by
  cases v with
  | int a =>
    cases w with
    | int b =>
      rw [Word.binary_cause (error_of_map h)]
      trivial
    | float y =>
      cases h
      trivial
  | float x =>
    cases w with
    | int b =>
      cases h
      trivial
    | float y =>
      rw [Single.binary_cause (error_of_map h)]
      trivial

/-- A conversion fails for the causes of values. -/
theorem convert_cause {conversion : Conversion} {v : Value} {cause : Cause}
    (h : v.convert conversion = .error cause) :
  cause.IsValue
  := by
  cases conversion with
  | float => apply toWord_cause (error_of_map h)
  | round => apply toSingle_cause (error_of_map h)
  | trunc => apply toSingle_cause (error_of_map h)

end Value

/-! ### Expressions -/

namespace Site

/-- A name fails for the causes of values only: it is unknown. -/
theorem lookupIn_faults (site : Site) (owner : ObjId) (scope : Scope) (name : String)
    (pos : Pos) :
  FailsOnly Cause.IsValue (site.lookupIn owner scope name pos : Eval Meaning)
  := by
  unfold lookupIn
  cases SpinHub.lookup? site.objects owner scope name with
  | none => exact FailsOnly.failAt pos trivial
  | some meaning => apply FailsOnly.pure

/-- A name has no value for the causes of values only, if constants fail so. -/
theorem nameValue_faults {readCon : ConReader}
    (hread : ∀ owner index con, FailsOnly Cause.IsValue (readCon owner index con)) (site : Site)
    (name : String) (pos : Pos) :
  FailsOnly Cause.IsValue (site.nameValue readCon name pos)
  := by
  refine FailsOnly.bind (by apply lookupIn_faults) ?_
  intro meaning
  cases meaning with
  | label label =>
    cases site.here with
    | none => apply FailsOnly.pure
    | some here =>
      simp only
      split_ifs
      · exact FailsOnly.failAt pos trivial
      · apply FailsOnly.pure
  | con owner index con => apply hread
  | _ => exact FailsOnly.failAt pos trivial

/-- A constant of another object has no value for the causes of values only, if constants fail
so. -/
theorem memberValue_faults {readCon : ConReader}
    (hread : ∀ owner index con, FailsOnly Cause.IsValue (readCon owner index con)) (site : Site)
    (object name : String) (pos : Pos) :
  FailsOnly Cause.IsValue (site.memberValue readCon object name pos)
  := by
  refine FailsOnly.bind (by apply lookupIn_faults) ?_
  intro meaning
  cases meaning with
  | sub sub =>
    refine FailsOnly.bind (by apply lookupIn_faults) ?_
    intro member
    cases member with
    | con owner index con => apply hread
    | _ => exact FailsOnly.failAt pos trivial
  | _ => exact FailsOnly.failAt pos trivial

theorem labelNamed_faults (site : Site) (name : String) (pos : Pos) :
  FailsOnly Cause.IsValue (site.labelNamed name pos)
  := by
  refine FailsOnly.bind (by apply lookupIn_faults) ?_
  intro meaning
  cases meaning with
  | label label => apply FailsOnly.pure
  | _ => exact FailsOnly.failAt pos trivial

/-- What names no label fails for the causes of values only. -/
theorem labelOf_faults (site : Site) (e : Exp) :
  FailsOnly Cause.IsValue (site.labelOf e)
  := by
  unfold labelOf
  cases e.simpleName? with
  | none => exact FailsOnly.failAt _ trivial
  | some name => apply labelNamed_faults

/-- An expression fails for the causes of values only, if constants fail so. -/
theorem evalWith_faults {readCon : ConReader}
    (hread : ∀ owner index con, FailsOnly Cause.IsValue (readCon owner index con)) (site : Site)
    (e : Exp) :
  FailsOnly Cause.IsValue (site.evalWith readCon e)
  := by
  induction e using Site.evalWith.induct site with
  | case1 pos w => apply FailsOnly.pure
  | case2 pos x => apply FailsOnly.pure
  | case3 pos name => apply nameValue_faults hread
  | case4 pos name => apply nameValue_faults hread
  | case5 pos object name => apply memberValue_faults hread
  | case6 pos operand =>
    apply FailsOnly.bind (labelOf_faults site operand)
    intro label
    apply FailsOnly.pure
  | case7 pos op operand hop ih =>
    rw [evalWith]
    · apply FailsOnly.bind ih
      intro v
      apply FailsOnly.liftAt
      apply Value.unary_cause
    · exact hop
  | case8 pos op left right ihl ihr =>
    apply FailsOnly.bind ihl
    intro l
    apply FailsOnly.bind ihr
    intro r
    apply FailsOnly.liftAt
    apply Value.binary_cause
  | case9 pos reg here hhere =>
    rw [evalWith, hhere]
    apply FailsOnly.pure
  | case10 pos reg hhere =>
    rw [evalWith, hhere]
    exact FailsOnly.failAt pos trivial
  | case11 pos reg bits hbits =>
    rw [evalWith]
    · exact FailsOnly.failAt pos trivial
    · exact hbits
  | case12 pos conversion operand ih =>
    apply FailsOnly.bind ih
    intro v
    apply FailsOnly.liftAt
    apply Value.convert_cause
  | case13 pos operand ih => apply ih
  | case14 pos here hhere =>
    rw [evalWith, hhere]
    apply FailsOnly.pure
  | case15 pos hhere =>
    rw [evalWith, hhere]
    exact FailsOnly.failAt pos trivial
  | case16 pos name =>
    apply FailsOnly.bind (labelNamed_faults site name pos)
    intro label
    apply FailsOnly.pure
  | case17 e =>
    rw [evalWith]
    · exact FailsOnly.failAt _ trivial
    all_goals assumption

end Site

/-- Reading a constant passes on the fault of its expression. -/
theorem conValueWithin_faults (objects : List Object) (depth : Nat) (owner : ObjId) (index : Nat)
    (con : Con) :
  FailsOnly Cause.IsValue (conValueWithin objects depth owner index con)
  := by
  induction depth generalizing owner index con with
  | zero => exact FailsOnly.failAt _ trivial
  | succ depth ih =>
    intro memo fault memo' hfail
    rw [conValueWithin, readThrough, fails_get_bind] at hfail
    cases hstatus : Memo.status memo (owner, index) with
    | done v =>
      rw [hstatus] at hfail
      cases fails_pure hfail
    | evaluating =>
      rw [hstatus] at hfail
      obtain ⟨rfl, rfl⟩ := fails_failAt.mp hfail
      trivial
    | pending =>
      rw [hstatus] at hfail
      replace hfail := fails_modify_bind.mp hfail
      obtain ⟨inner, middle, hinner, hfail⟩ := fails_tryCatch.mp hfail
      replace hfail := fails_modify_bind.mp hfail
      cases hfail
      have hexp : FailsOnly Cause.IsValue (Site.evalWith (conValueWithin objects depth)
          { objects, obj := owner } con.value) := Site.evalWith_faults ih _ _
      rcases fails_bind.mp hinner with hfirst | ⟨v, m, _, hsecond⟩
      · apply hexp _ _ _ hfirst
      · cases hsecond

namespace Site

/-- An expression fails for the causes of values only. -/
theorem eval_faults (site : Site) (e : Exp) :
  FailsOnly Cause.IsValue (site.eval e)
  := evalWith_faults (conValueWithin_faults _ _) site e

theorem evalInt_faults (site : Site) (e : Exp) :
  FailsOnly Cause.IsValue (site.evalInt e)
  := by
  apply FailsOnly.bind (eval_faults site e)
  intro v
  apply FailsOnly.bind
  · apply FailsOnly.liftAt
    apply Value.toWord_cause
  · intro w
    apply FailsOnly.pure

end Site

/-- An operand fails for other causes than placing does. -/
theorem registerField_faults (site : Site) (operand : Operand) (e : Option Exp) :
  FailsOnly (fun cause => ¬ cause.IsPlacing) (registerField site operand e)
  := by
  cases e with
  | none => apply FailsOnly.pure
  | some e =>
    apply FailsOnly.bind ((Site.evalInt_faults site e).mono Cause.IsValue.not_isPlacing)
    intro v
    split_ifs
    · apply FailsOnly.pure
    · exact FailsOnly.failAt _ id

/-- An instruction fails for other causes than placing does. -/
theorem Instruction.assemble_faults (instruction : Instruction) (site : Site) :
  FailsOnly (fun cause => ¬ cause.IsPlacing) (instruction.assemble site)
  := by
  refine FailsOnly.bind (by apply registerField_faults) ?_
  intro dest
  refine FailsOnly.bind (by apply registerField_faults) ?_
  intro source
  apply FailsOnly.pure

end SpinHub
