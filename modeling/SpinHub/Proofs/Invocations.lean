import Mathlib
import SpinHub.Proofs.CallOperands
import SpinHub.Proofs.DraftInvariants
import SpinHub.Proofs.FoldedExpressions

/-!
# Invocations

The methods that the expressions and statements of a body invoke, each with the number of arguments
that it is given. `Requires` says what has to hold for a computation to succeed. A constant
expression invokes no method, so that folding an operator never takes an invocation away.
-/

namespace SpinHub

variable {σ α β : Type}

/-! ### Invocations -/

/-- How a method is invoked. -/
inductive Manner where
  | call
  /-- As the code of a new cog. -/
  | launch
  /-- In the index of a launched method, for which no code is written. -/
  | dropped
deriving DecidableEq

/-- A method that is invoked, with the number of arguments that it is given. -/
structure Invocation where
  manner : Manner
  method : Method
  given : Nat

/-- The arguments are as many as the parameters. -/
def Invocation.Fits (invocation : Invocation) : Prop :=
  invocation.given = invocation.method.params.length

instance (invocation : Invocation) : Decidable invocation.Fits :=
  inferInstanceAs (Decidable (_ = _))

namespace Site

/-- The method of a name, in the object itself or in a sub-object. -/
def callee? (site : Site) (object : Option String) (name : String) : Option Method :=
  match object with
  | none =>
    match site.lookup? name with
    | some (.method method) => some method
    | _ => none
  | some object =>
    match site.lookup? object with
    | some (.sub sub) =>
      match SpinHub.lookup? site.objects sub.target [] name with
      | some (.method method) => some method
      | _ => none
    | _ => none

/-- The invocation of a name, if it is that of a method. -/
def invokes (site : Site) (manner : Manner) (object : Option String) (name : String)
    (given : Nat) : List Invocation :=
  (site.callee? object name).toList.map fun method => { manner, method, given }

end Site

mutual

/-- The invocations in an expression. A bare name of a method is a call without arguments. -/
def Exp.invocations (site : Site) : Exp → List Invocation
  | .name _ n => site.invokes .call none n 0
  | .cell _ n none [] => site.invokes .call none n 0
  | .cell _ _ _ indices => Exp.invocationsList site indices
  | .memory _ _ base index => base.invocations site ++ Exp.invocations? site index
  | .call _ object index n args _ =>
    site.invokes .call object n args.length ++ Exp.invocations? site index
      ++ Exp.invocationsList site args
  | .unary _ _ operand => operand.invocations site
  | .binary _ _ left right => left.invocations site ++ right.invocations site
  | .assign _ _ target value => target.invocations site ++ value.invocations site
  | .look _ _ value items => value.invocations site ++ Exp.invocationsRanges site items
  | .register _ _ .all => []
  | .register _ _ (.one bit) => bit.invocations site
  | .register _ _ (.field high low) => high.invocations site ++ low.invocations site
  | .special _ index => index.invocations site
  | .convert _ _ operand => operand.invocations site
  | .constant _ operand => operand.invocations site
  | .cog _ which (.name _ n) stack =>
    Exp.invocations? site which ++ site.invokes .launch none n 0 ++ stack.invocations site
  | .cog _ which (.call _ none index n args _) stack =>
    Exp.invocations? site which
      ++ (site.invokes .launch none n args.length
        ++ (Exp.invocations? site index).map ({ · with manner := .dropped })
        ++ Exp.invocationsList site args)
      ++ stack.invocations site
  | .cog _ which code stack =>
    Exp.invocations? site which ++ code.invocations site ++ stack.invocations site
  | .stringCompare _ left right => left.invocations site ++ right.invocations site
  | .stringSize _ operand => operand.invocations site
  | .lock _ _ args => Exp.invocationsList site args
  | .int _ _ | .float _ _ | .member _ _ _ | .readOnly _ _ | .string _ _ | .here _
  | .absolute _ _ => []

/-- The invocations in expressions. -/
def Exp.invocationsList (site : Site) : List Exp → List Invocation
  | [] => []
  | e :: rest => e.invocations site ++ Exp.invocationsList site rest

/-- The invocations in an optional expression. -/
def Exp.invocations? (site : Site) : Option Exp → List Invocation
  | none => []
  | some e => e.invocations site

/-- The invocations in values and ranges. -/
def Exp.invocationsRanges (site : Site) : List (Range Exp) → List Invocation
  | [] => []
  | .single e :: rest => e.invocations site ++ Exp.invocationsRanges site rest
  | .span low high :: rest =>
    low.invocations site ++ high.invocations site ++ Exp.invocationsRanges site rest

end

/-- The invocations in what a cog is started with. -/
def Exp.started (site : Site) : Exp → List Invocation
  | .name _ n => site.invokes .launch none n 0
  | .call _ none index n args _ =>
    site.invokes .launch none n args.length
      ++ (Exp.invocations? site index).map ({ · with manner := .dropped })
      ++ Exp.invocationsList site args
  | e => e.invocations site

/-- Starting a cog invokes what its operands do, and the method that the cog is started with. -/
theorem Exp.invocations_cog (site : Site) (pos : Pos) (which : Option Exp) (e stack : Exp) :
  (Exp.cog pos which e stack).invocations site
    = Exp.invocations? site which ++ e.started site ++ stack.invocations site
  := by
  cases e with
  | call pos' object index n args trap => cases object <;> rfl
  | _ => rfl

/-- The invocations in the control of a loop. -/
def LoopControl.invocations (site : Site) : LoopControl → List Invocation
  | .forever => []
  | .times count => count.invocations site
  | .before _ condition | .after _ condition => condition.invocations site
  | .fromTo counter first last step =>
    counter.invocations site ++ first.invocations site ++ last.invocations site
      ++ Exp.invocations? site step

mutual

/-- The invocations in a statement. -/
def Stmt.invocations (site : Site) : Stmt → List Invocation
  | .exp _ e => e.invocations site
  | .ret _ value | .abort _ value => Exp.invocations? site value
  | .branch _ _ condition yes none => condition.invocations site ++ Stmt.blockInvocations site yes
  | .branch _ _ condition yes (some no) =>
    condition.invocations site ++ Stmt.blockInvocations site yes ++ Stmt.blockInvocations site no
  | .loop _ control body => control.invocations site ++ Stmt.blockInvocations site body
  | .select _ value arms other =>
    value.invocations site ++ Stmt.armInvocations site arms ++ Stmt.blockInvocations site other
  | .fillMove _ _ args | .wait _ _ args => Exp.invocationsList site args
  | .clkset _ mode frequency => mode.invocations site ++ frequency.invocations site
  | .cogstop _ cog => cog.invocations site
  | .next _ | .quit _ | .reboot _ => []

/-- The invocations in statements. -/
def Stmt.blockInvocations (site : Site) : List Stmt → List Invocation
  | [] => []
  | statement :: rest => statement.invocations site ++ Stmt.blockInvocations site rest

/-- The invocations in the arms of a CASE. -/
def Stmt.armInvocations (site : Site) : List Arm → List Invocation
  | [] => []
  | .mk tests body :: rest =>
    Exp.invocationsRanges site tests ++ Stmt.blockInvocations site body
      ++ Stmt.armInvocations site rest

end

/-! ### Requirements -/

/-- A computation cannot succeed unless `p` holds. -/
def Requires (x : ExceptT Fault (StateM σ) α) (p : Prop) : Prop :=
  ∀ s a s', Yields x s a s' → p

namespace Requires

variable {p : Prop} {x : ExceptT Fault (StateM σ) α} {f : α → ExceptT Fault (StateM σ) β}

/-- What the first part requires, both parts in turn require. -/
theorem first (h : Requires x p) :
  Requires (x >>= f) p
  := by
  intro s b s' hyields
  obtain ⟨a, m, hx, _⟩ := yields_bind.mp hyields
  exact h s a m hx

/-- What the second part requires whatever it is given, both parts in turn require. -/
theorem rest (h : ∀ a, Requires (f a) p) :
  Requires (x >>= f) p
  := by
  intro s b s' hyields
  obtain ⟨a, m, _, hf⟩ := yields_bind.mp hyields
  exact h a m b s' hf

/-- What always fails requires anything. -/
theorem failAt (pos : Pos) (cause : Cause) :
  Requires (failAt pos cause : ExceptT Fault (StateM σ) α) p
  := fun _ _ _ hyields => absurd hyields yields_failAt

/-- What the part for one item requires, all parts in turn require. -/
theorem forM {ι : Type} {f : ι → ExceptT Fault (StateM σ) PUnit} {items : List ι} {item : ι}
    (hmem : item ∈ items) (h : Requires (f item) p) :
  Requires (items.forM f) p
  := by
  induction hmem with
  | head rest => exact first h
  | tail _ _ ih => exact rest fun _ => ih

end Requires

namespace Site

variable {site : Site} {p : Prop} {invocation : Invocation}

/-- An invocation by name is one of the method that the name leads to. -/
theorem mem_invokes {manner : Manner} {object : Option String} {name : String} {given : Nat} :
  invocation ∈ site.invokes manner object name given
    ↔ ∃ method, site.callee? object name = some method ∧ { manner, method, given } = invocation
  := by
  simp only [invokes, List.mem_map, Option.mem_toList]

/-- A method that is called without an object is one of the object itself. -/
theorem lookup?_of_callee_own {name : String} {method : Method}
    (h : site.callee? none name = some method) :
  site.lookup? name = some (.method method)
  := by
  rw [callee?] at h
  split at h
  · rename_i hname
    rw [hname, Option.some_inj.mp h]
  · cases h

/-- A method that is called through a sub-object is one of its target. -/
theorem lookup?_of_callee_sub {object name : String} {method : Method}
    (h : site.callee? (some object) name = some method) :
  ∃ sub, site.lookup? object = some (.sub sub)
    ∧ SpinHub.lookup? site.objects sub.target [] name = some (.method method)
  := by
  rw [callee?] at h
  split at h
  · rename_i sub hobject
    split at h
    · rename_i hname
      rw [Option.some_inj.mp h] at hname
      exact ⟨sub, hobject, hname⟩
    · cases h
  · cases h

/-- What follows a look-up is required for what the name stands for. -/
theorem lookupIn_requires {id : ObjId} {scope : Scope} {name : String} {meaning : Meaning}
    {f : Meaning → ExceptT Fault (StateM σ) α}
    (hname : SpinHub.lookup? site.objects id scope name = some meaning) (pos : Pos)
    (h : Requires (f meaning) p) :
  Requires (site.lookupIn id scope name pos >>= f) p
  := by
  rw [lookupIn, hname]
  change Requires (pure meaning >>= f) p
  rw [pure_bind]
  exact h

/-- No label is named by an expression that calls a method. -/
theorem labelOf_requires {e : Exp} (h : invocation ∈ e.invocations site) :
  Requires (site.labelOf e) p
  := by
  rw [labelOf]
  cases hname : e.simpleName? with
  | none => exact .failAt _ _
  | some name =>
    have hmethod : ∃ method, site.callee? none name = some method := by
      obtain ⟨pos, rfl | rfl⟩ := Exp.eq_of_simpleName hname
      all_goals
        obtain ⟨method, hmethod, _⟩ := mem_invokes.mp h
        exact ⟨method, hmethod⟩
    obtain ⟨method, hmethod⟩ := hmethod
    exact lookupIn_requires (lookup?_of_callee_own hmethod) e.pos (.failAt _ _)

/-- An expression with an invocation is no constant expression. -/
theorem evalWith_requires (readCon : ConReader) :
    ∀ e : Exp, invocation ∈ e.invocations site → Requires (site.evalWith readCon e) p
  | .name pos n, h => by
    obtain ⟨method, hmethod, rfl⟩ := mem_invokes.mp h
    exact lookupIn_requires (lookup?_of_callee_own hmethod) pos (.failAt _ _)
  | .cell pos n none [], h => by
    obtain ⟨method, hmethod, rfl⟩ := mem_invokes.mp h
    exact lookupIn_requires (lookup?_of_callee_own hmethod) pos (.failAt _ _)
  | .cell pos n none (_ :: _), h => .failAt _ _
  | .cell pos n (some size) indices, h => .failAt _ _
  | .unary pos op operand, h => by
    have ih := evalWith_requires readCon operand h
    cases op with
    | addressOf => exact .first (labelOf_requires h)
    | _ => exact .first ih
  | .binary pos op left right, h => by
    rcases List.mem_append.mp h with h | h
    · exact .first (evalWith_requires readCon left h)
    · exact .rest fun _ => .first (evalWith_requires readCon right h)
  | .register pos reg (.one bit), h => .failAt _ _
  | .register pos reg (.field high low), h => .failAt _ _
  | .convert pos conversion operand, h => .first (evalWith_requires readCon operand h)
  | .constant pos operand, h => evalWith_requires readCon operand h
  | .memory _ _ _ _, _ | .call _ _ _ _ _ _, _ | .assign _ _ _ _, _ | .look _ _ _ _, _
  | .special _ _, _ | .cog _ _ _ _, _ | .stringCompare _ _ _, _ | .stringSize _ _, _
  | .lock _ _ _, _ => .failAt _ _

theorem evaluate_requires {x : Eval α} (h : Requires x p) :
  Requires (Emit.evaluate x) p
  := by
  intro d a d' hyields
  obtain ⟨memo, hx, _⟩ := Emit.yields_evaluate.mp hyields
  exact h _ _ _ hx

theorem pushConstant_requires {e : Exp} (h : Requires (site.eval e) p) :
  Requires (site.pushConstant e) p
  := .first (evaluate_requires h)

/-- A folded expression is evaluated, or its code is written. -/
theorem folded_requires {e : Exp} {code : Emit Unit} (heval : Requires (site.eval e) p)
    (hcode : Requires code p) :
  Requires (site.folded e code) p
  := by
  rw [folded]
  split_ifs
  · intro d u d' hyields
    obtain ⟨value, m, hvalue, hrest⟩ := yields_bind.mp hyields
    cases value with
    | none => exact hcode _ _ _ hrest
    | some v =>
      rw [Yields, run_evaluate?] at hvalue
      cases hresult : ((site.eval e).run.run d.memo).1 with
      | error fault =>
        rw [hresult] at hvalue
        cases hvalue
      | ok v => exact heval _ _ _ (Yields.of_result hresult)
  · exact hcode

end Site

end SpinHub
