import Mathlib
import SpinHub.Proofs.ClosedStreams
import SpinHub.Proofs.Invocations

/-!
# Argument counts

Code is written for every call in a body, and no code of a call is written unless the arguments are
as many as the parameters of the method. So an accepted body has no other calls. Methods that a cog
is started with are exempt: their arguments are not counted.
-/

namespace SpinHub

variable {σ α β : Type}

/-! ### Terms and cells -/

/-- A term cannot be pushed or evaluated unless `p` holds. -/
structure Term.Requires (site : Site) (term : Term) (p : Prop) : Prop where
  push : SpinHub.Requires term.push p
  eval : SpinHub.Requires (site.eval term.exp) p

namespace Site

variable {site : Site} {p : Prop}

/-- An operation requires what one of its operands requires, folded or not. -/
theorem binaryTerm_requires (pos : Pos) (op : BinaryOp) {left right : Term}
    (h : left.Requires site p ∨ right.Requires site p) :
  (site.binaryTerm pos op left right).Requires site p
  := by
  have heval : Requires (site.eval (.binary pos op left.exp right.exp)) p := by
    rcases h with h | h
    · exact .first h.eval
    · exact .rest fun _ => .first h.eval
  refine ⟨folded_requires heval ?_, heval⟩
  rcases h with h | h
  · exact .first h.push
  · exact .rest fun _ => .first h.push

/-- One more dimension requires what the index so far or the next one requires. -/
theorem nextIndex_requires {index term : Term} (extent : Nat)
    (h : index.Requires site p ∨ term.Requires site p) :
  (site.nextIndex index (term, extent)).Requires site p
  := by
  apply binaryTerm_requires
  rcases h with h | h
  · exact .inl (binaryTerm_requires _ _ (.inl h))
  · exact .inr h

/-- A subscript requires what any index requires that has a dimension. -/
theorem foldl_nextIndex_requires {index : Term} {terms : List Term} {extents : List Nat}
    (hlength : terms.length ≤ extents.length)
    (h : index.Requires site p ∨ ∃ term ∈ terms, term.Requires site p) :
  ((terms.zip extents).foldl site.nextIndex index).Requires site p
  := by
  induction terms generalizing index extents with
  | nil =>
    rcases h with h | ⟨term, hmem, _⟩
    · exact h
    · cases hmem
  | cons first rest ih =>
    obtain _ | ⟨extent, extents⟩ := extents
    · cases hlength
    · apply ih (Nat.le_of_succ_le_succ hlength)
      rcases h with h | ⟨term, hmem, h⟩
      · exact .inl (nextIndex_requires extent (.inl h))
      · rcases List.mem_cons.mp hmem with rfl | hmem
        · exact .inl (nextIndex_requires extent (.inr h))
        · exact .inr ⟨term, hmem, h⟩

/-- Subscripts that are accepted are all part of the index. -/
theorem subscript_requires {extents : List Nat} {terms : List Term} {index : Option (Emit Unit)}
    (hindex : site.subscript extents terms = .ok index) {term : Term} (hmem : term ∈ terms)
    (h : term.Requires site p) :
  ∃ push, index = some push ∧ Requires push p
  := by
  obtain _ | ⟨first, _ | ⟨second, rest⟩⟩ := terms
  · cases hmem
  · obtain rfl := List.mem_singleton.mp hmem
    cases hindex
    exact ⟨_, rfl, h.push⟩
  · rw [subscript] at hindex
    split at hindex
    · cases hindex
    · rename_i hextra
      split_ifs at hindex with hfew
      cases hindex
      rw [List.getElem?_eq_none_iff] at hextra
      refine ⟨_, rfl, (foldl_nextIndex_requires ?_ ?_).push⟩
      · rw [List.length_tail]
        rw [List.length_cons] at hextra
        omega
      · rcases List.mem_cons.mp hmem with rfl | hmem
        · exact .inl h
        · exact .inr ⟨term, hmem, h⟩

/-- An access requires what its index requires. -/
theorem accessCell_requires (pos : Pos) (access : Access) (size : Int) (space : Space)
    (offset : Int) {push : Emit Unit} (h : Requires push p) :
  Requires (accessCell pos access size space offset (some push)) p
  := .first h

/-- An access to a variable requires what any of its indices requires. -/
theorem accessVariable_requires (pos : Pos) (name : String) (size : Option Size)
    {terms : List Term} {term : Term} (hmem : term ∈ terms) (h : term.Requires site p)
    (access : Access) :
  Requires (site.accessVariable pos name size terms access) p
  := by
  refine .rest fun cell => ?_
  dsimp only
  split_ifs
  · exact .failAt _ _
  · intro d u d' hyields
    obtain ⟨index, m, hlift, haccess⟩ := yields_bind.mp hyields
    obtain ⟨hindex, rfl⟩ := yields_liftM.mp hlift
    obtain ⟨push, rfl, hpush⟩ := subscript_requires hindex hmem h
    exact accessCell_requires _ _ _ _ _ hpush _ _ _ haccess

end Site

/-! ### Codes -/

namespace Code

/-- Code cannot be written unless `p` holds. -/
structure Requires (code : Code) (p : Prop) : Prop where
  value : ∀ keep, SpinHub.Requires (code.value keep) p
  access : ∀ access, SpinHub.Requires (code.access access) p

variable {code : Code} {p : Prop} {pos : Pos}

theorem Requires.push (h : code.Requires p) :
  SpinHub.Requires code.push p
  := h.value true

theorem ofPush_requires {push : Emit Unit} (h : SpinHub.Requires push p) :
  (ofPush pos push).Requires p
  := by
  refine ⟨fun keep => ?_, fun _ => .failAt _ _⟩
  cases keep
  · exact .failAt _ _
  · exact h

theorem ofAccess_requires {access : Access → Emit Unit} (h : ∀ a, SpinHub.Requires (access a) p) :
  (ofAccess pos access).Requires p
  := by
  refine ⟨fun keep => ?_, h⟩
  cases keep
  · exact .failAt _ _
  · exact h .load

theorem ofValue_requires {value : Bool → Emit Unit} (h : ∀ keep, SpinHub.Requires (value keep) p) :
  (ofValue pos value).Requires p
  := ⟨h, fun _ => .failAt _ _⟩

end Code

/-- A value or one of the ends of a range cannot be pushed unless `p` holds. -/
def Range.Requires (p : Prop) : Range Code → Prop
  | .single code => code.Requires p
  | .span low high => low.Requires p ∨ high.Requires p

/-- The bits of a register cannot be pushed unless `p` holds. -/
def Bits.Requires (p : Prop) : Bits Code → Prop
  | .all => False
  | .one bit => bit.Requires p
  | .field high low => high.Requires p ∨ low.Requires p

namespace Site

variable {site : Site} {p : Prop} {pos : Pos}

/-- An item requires what one of its ends requires. -/
theorem rangeItem_requires {single span : Emit Unit} {item : Range Code} (h : item.Requires p) :
  Requires (rangeItem single span item) p
  := by
  cases item with
  | single code => exact .first (Code.Requires.push h)
  | span low high =>
    rcases h with h | h
    · exact .first h.push
    · exact .rest fun _ => .first h.push

/-- Arguments require what any of them requires. -/
theorem all_push_requires {codes : List Code} {code : Code} (hmem : code ∈ codes)
    (h : code.Requires p) :
  Requires (Emit.all (codes.map Code.push)) p
  := .forM (List.mem_map_of_mem hmem) h.push

/-! ### Calls -/

/-- The check passes only for as many arguments as there are parameters. -/
theorem checkArguments_requires (method : Method) (given : Nat) :
  Requires (checkArguments method given pos) (given = method.params.length)
  := by
  rw [checkArguments]
  split_ifs with h
  · exact fun _ _ _ _ => h
  · exact .failAt _ _

/-- A call of a method of the object itself requires as many arguments as the method has
parameters. -/
theorem callOwn_requires {name : String} {method : Method} (given : Nat)
    (h : site.callee? none name = some method) :
  Requires (site.callOwn pos name given) (given = method.params.length)
  := by
  rw [callOwn, methodNamed, bind_assoc]
  refine lookupIn_requires (lookup?_of_callee_own h) pos ?_
  rw [pure_bind]
  exact .first (checkArguments_requires method given)

/-- A call of a method of a sub-object requires as many arguments as the method has parameters. -/
theorem callSub_requires {object name : String} {method : Method} {index : Option (Emit Unit)}
    (given : Nat) (h : site.callee? (some object) name = some method) :
  Requires (site.callSub pos object name index given) (given = method.params.length)
  := by
  obtain ⟨sub, hobject, hname⟩ := lookup?_of_callee_sub h
  refine lookupIn_requires hobject pos (lookupIn_requires hname pos ?_)
  dsimp only
  split_ifs
  · exact .failAt _ _
  · exact .first (checkArguments_requires method given)

/-- A call of a method of a sub-object requires what its index requires. -/
theorem callSub_index_requires {object name : String} {push : Emit Unit} (given : Nat)
    (h : Requires push p) :
  Requires (site.callSub pos object name (some push) given) p
  := by
  intro d u d' hyields
  obtain ⟨sub, _, _, callee, _, hwrites⟩ := yields_callSub hyields
  exact Requires.first h _ _ _ hwrites

/-- A call takes as many arguments as the method has parameters. -/
theorem call_requires {object : Option String} {name : String} {method : Method}
    {index : Option (Emit Unit)} {arguments : List (Emit Unit)} (trap keep : Bool)
    (h : site.callee? object name = some method) :
  Requires (site.call pos object index name arguments trap keep)
    (arguments.length = method.params.length)
  := by
  refine .rest fun _ => .rest fun _ => ?_
  cases object with
  | some object => exact callSub_requires arguments.length h
  | none =>
    cases index with
    | none => exact callOwn_requires arguments.length h
    | some push => exact .failAt _ _

/-- A call requires what any of its arguments requires. -/
theorem call_arguments_requires {object : Option String} {name : String}
    {index : Option (Emit Unit)} {codes : List Code} {code : Code} (trap keep : Bool)
    (hmem : code ∈ codes) (h : code.Requires p) :
  Requires (site.call pos object index name (codes.map Code.push) trap keep) p
  := .rest fun _ => .first (all_push_requires hmem h)

/-- A call requires what its index requires. -/
theorem call_index_requires {object : Option String} {name : String} {push : Emit Unit}
    {arguments : List (Emit Unit)} (trap keep : Bool) (h : Requires push p) :
  Requires (site.call pos object (some push) name arguments trap keep) p
  := by
  refine .rest fun _ => .rest fun _ => ?_
  cases object with
  | some object => exact callSub_index_requires arguments.length h
  | none => exact .failAt _ _

/-- A bare name of a method is a call without arguments. -/
theorem nameCode_requires {name : String} {method : Method}
    (h : site.callee? none name = some method) :
  (site.nameCode pos name).Requires (0 = method.params.length)
  := by
  have hname := lookup?_of_callee_own h
  constructor
  · intro keep
    exact lookupIn_requires hname pos (call_requires false keep h)
  · intro access
    exact lookupIn_requires hname pos (by cases access <;> exact .failAt _ _)

/-! ### Operators and operations -/

/-- A unary operation requires what its operand requires. -/
theorem unary_requires (op : UnaryOp) (operand : Exp) {code : Code} (keep : Bool)
    (h : code.Requires p) :
  Requires (site.unary pos op operand code keep) p
  := by
  rw [unary]
  split
  · split_ifs
    · exact .failAt _ _
    · exact h.access .address
    · exact .first h.push
  · split
    · exact .first (h.access .modify)
    · split_ifs
      · exact .first h.push
      · exact .first (h.access .modify)

/-- A unary operation requires what its operand requires, also where it is folded. -/
theorem unaryCode_requires (op : UnaryOp) {operand : Exp} {code : Code}
    (heval : Requires (site.eval (.unary pos op operand)) p) (h : code.Requires p) :
  (site.unaryCode pos op operand code).Requires p
  := by
  refine Code.ofValue_requires fun keep => ?_
  cases keep
  · exact unary_requires op operand false h
  · exact folded_requires heval (unary_requires op operand true h)

/-- An assignment requires what its target or its value requires. -/
theorem assign_requires (op : Option BinaryOp) {target value : Code} (keep : Bool)
    (h : target.Requires p ∨ value.Requires p) :
  Requires (assign op target value keep) p
  := by
  rcases h with h | h
  · refine .rest fun _ => ?_
    dsimp only
    split
    · exact h.access .store
    · exact .first (h.access .modify)
  · exact .first h.push

/-- An access to memory requires what its address or its index requires. -/
theorem accessMemory_requires (size : Size) {base : Code} {index : Option Code} (access : Access)
    (h : base.Requires p ∨ ∃ code, index = some code ∧ code.Requires p) :
  Requires (accessMemory size base index access) p
  := by
  rcases h with h | ⟨code, rfl, h⟩
  · exact .first h.push
  · exact .rest fun _ => .first h.push

/-- An access to a register requires what its bits require. -/
theorem accessRegister_requires (reg : UInt8) {bits : Bits Code} (access : Access)
    (h : bits.Requires p) :
  Requires (accessRegister pos reg bits access) p
  := by
  rw [accessRegister]
  split_ifs
  · exact .failAt _ _
  · cases bits with
    | all => cases h
    | one bit => exact .first (Code.Requires.push h)
    | field high low =>
      rcases h with h | h
      · exact .first h.push
      · exact .rest fun _ => .first h.push

theorem accessSpecial_requires {index : Code} (access : Access) (h : index.Requires p) :
  Requires (accessSpecial pos index access) p
  := by
  rw [accessSpecial]
  split_ifs
  · exact .failAt _ _
  · exact .first h.push

/-- A choice requires what its value or any of its items requires. -/
theorem look_requires (kind : LookKind) {value : Code} {items : List (Range Code)}
    (h : value.Requires p ∨ ∃ item ∈ items, item.Requires p) :
  Requires (look kind value items) p
  := by
  refine .rest fun _ => .rest fun _ => .rest fun _ => ?_
  rcases h with h | ⟨item, hmem, h⟩
  · exact .first h.push
  · exact .rest fun _ => .first (.forM hmem (rangeItem_requires h))

/-- A lock operation requires what any of its arguments requires. -/
theorem lock_requires (op : Lock) {args : List Code} {code : Code} (keep : Bool)
    (hmem : code ∈ args) (h : code.Requires p) :
  Requires (lock pos op args keep) p
  := by
  rw [lock]
  split_ifs
  · exact .failAt _ _
  · exact .first (all_push_requires hmem h)

/-! ### Cogs -/

/-- What a cog is started with: the arguments of a launched method, or else the value of the
code. -/
theorem startCog_code_requires {cog : Option Code} {e : Exp} {code stack : Code} (keep : Bool)
    (hcode : Requires code.push p)
    (hlaunch : ∀ d d' method arguments,
      Yields (site.cogMethod? e code) d (some (method, arguments)) d' →
        Requires (Emit.all arguments) p) :
  Requires (site.startCog pos cog e code stack keep) p
  := by
  rw [startCog]
  split
  · exact .failAt _ _
  · intro d u d' hyields
    obtain ⟨launched, m, hlaunched, hrest⟩ := yields_bind.mp hyields
    cases launched with
    | some entry => exact Requires.first (hlaunch _ _ _ _ hlaunched) _ _ _ hrest
    | none => cases cog <;> exact Requires.rest (fun _ => .first hcode) _ _ _ hrest

/-- Starting a cog requires what its stack requires. -/
theorem startCog_stack_requires {cog : Option Code} {e : Exp} {code stack : Code} (keep : Bool)
    (h : stack.Requires p) :
  Requires (site.startCog pos cog e code stack keep) p
  := by
  rw [startCog]
  split
  · exact .failAt _ _
  · refine .rest fun launched => ?_
    cases launched with
    | some entry => exact .rest fun _ => .rest fun _ => .first h.push
    | none => cases cog <;> exact .rest fun _ => .rest fun _ => .first h.push

/-- Starting a given cog requires what the expression for the cog requires. -/
theorem startCog_which_requires {which : Code} {e : Exp} {code stack : Code} (keep : Bool)
    (h : which.Requires p) :
  Requires (site.startCog pos (some which) e code stack keep) p
  := by
  rw [startCog]
  split
  · exact .failAt _ _
  · refine .rest fun launched => ?_
    cases launched with
    | some entry =>
      exact .rest fun _ => .rest fun _ => .rest fun _ => .rest fun _ => .first h.push
    | none => exact .first h.push

end Site

/-! ### Expressions -/

variable {site : Site} {invocation : Invocation}

theorem Exp.length_codes (site : Site) (es : List Exp) :
  (Exp.codes site es).length = es.length
  := by
  induction es with
  | nil => rfl
  | cons e rest ih => rw [Exp.codes, List.length_cons, ih, List.length_cons]

namespace Site

variable {p : Prop} {pos : Pos}

/-- Starting a cog with a method requires what any argument of the method requires. -/
theorem startCog_call_requires {cog : Option Code} (pos' : Pos) (index : Option Exp) (name : String)
    {args : List Exp} (trap : Bool) {stack code : Code} (keep : Bool)
    (hmem : code ∈ Exp.codes site args) (h : code.Requires p) :
  Requires (site.startCog pos cog (.call pos' none index name args trap)
    ((Exp.call pos' none index name args trap).code site) stack keep) p
  := by
  refine startCog_code_requires keep (call_arguments_requires trap true hmem h) ?_
  intro d d' method arguments hyields
  obtain ⟨callee, m, _, hpure⟩ := yields_bind.mp hyields
  cases hpure
  exact all_push_requires hmem h

/-- Code that is neither a name nor a call in its own object is not launched. -/
theorem startCog_value_requires {cog : Option Code} {e : Exp} {code stack : Code} (keep : Bool)
    (hname : ∀ pos' n, e ≠ .name pos' n)
    (hown : ∀ pos' index n args trap, e ≠ .call pos' none index n args trap)
    (h : code.Requires p) :
  Requires (site.startCog pos cog e code stack keep) p
  := by
  refine startCog_code_requires keep h.push ?_
  intro d d' method arguments hyields
  rw [cogMethod?.eq_def] at hyields
  split at hyields
  · cases hname _ _ rfl
  · cases hown _ _ _ _ _ rfl
  · cases hyields
  · cases hyields

end Site

mutual

/-- The code of an expression can be written only if its calls have as many arguments as the
methods have parameters. -/
theorem Exp.code_requires (hcall : invocation.manner = .call) :
    ∀ e : Exp, invocation ∈ e.invocations site → (e.code site).Requires invocation.Fits
  | .name pos n, h => by
    obtain ⟨method, hmethod, rfl⟩ := Site.mem_invokes.mp h
    exact Site.nameCode_requires hmethod
  | .cell pos n none [], h => by
    obtain ⟨method, hmethod, rfl⟩ := Site.mem_invokes.mp h
    exact Site.nameCode_requires hmethod
  | .cell pos n none (index :: rest), h => by
    obtain ⟨term, hmem, hterm⟩ := Exp.terms_requires hcall (index :: rest) h
    exact Code.ofAccess_requires (Site.accessVariable_requires pos n none hmem hterm)
  | .cell pos n (some size) indices, h => by
    obtain ⟨term, hmem, hterm⟩ := Exp.terms_requires hcall indices h
    exact Code.ofAccess_requires (Site.accessVariable_requires pos n (some size) hmem hterm)
  | .memory pos size base index, h => by
    refine Code.ofAccess_requires fun access => Site.accessMemory_requires size access ?_
    rcases List.mem_append.mp h with h | h
    · exact .inl (Exp.code_requires hcall base h)
    · exact .inr (Exp.code?_requires hcall index h)
  | .call pos object index n args trap, h => by
    refine ⟨fun keep => ?_, fun _ => .failAt _ _⟩
    rw [Exp.invocations, List.mem_append, List.mem_append, or_assoc] at h
    rcases h with h | h | h
    · obtain ⟨method, hmethod, rfl⟩ := Site.mem_invokes.mp h
      rw [← Exp.length_codes site args, ← List.length_map Code.push]
      exact Site.call_requires trap keep hmethod
    · obtain ⟨code, hcode, h⟩ := Exp.code?_requires hcall index h
      rw [Exp.code, hcode]
      exact Site.call_index_requires trap keep h.push
    · obtain ⟨code, hmem, h⟩ := Exp.codes_requires hcall args h
      exact Site.call_arguments_requires trap keep hmem h
  | .unary pos op operand, h =>
    Site.unaryCode_requires op (Site.evalWith_requires site.conValue (.unary pos op operand) h)
      (Exp.code_requires hcall operand h)
  | .binary pos op left right, h => by
    refine Code.ofPush_requires (Site.binaryTerm_requires pos op ?_).push
    rcases List.mem_append.mp h with h | h
    · exact .inl ⟨(Exp.code_requires hcall left h).push, Site.evalWith_requires _ left h⟩
    · exact .inr ⟨(Exp.code_requires hcall right h).push, Site.evalWith_requires _ right h⟩
  | .assign pos op target value, h => by
    refine Code.ofValue_requires fun keep => Site.assign_requires op keep ?_
    rcases List.mem_append.mp h with h | h
    · exact .inl (Exp.code_requires hcall target h)
    · exact .inr (Exp.code_requires hcall value h)
  | .look pos kind value items, h => by
    refine Code.ofPush_requires (Site.look_requires kind ?_)
    rcases List.mem_append.mp h with h | h
    · exact .inl (Exp.code_requires hcall value h)
    · exact .inr (Exp.rangeCodes_requires hcall items h)
  | .register pos reg (.one bit), h =>
    Code.ofAccess_requires fun access =>
      Site.accessRegister_requires reg access (Exp.code_requires hcall bit h)
  | .register pos reg (.field high low), h => by
    refine Code.ofAccess_requires fun access => Site.accessRegister_requires reg access ?_
    rcases List.mem_append.mp h with h | h
    · exact .inl (Exp.code_requires hcall high h)
    · exact .inr (Exp.code_requires hcall low h)
  | .special pos index, h =>
    Code.ofAccess_requires fun access =>
      Site.accessSpecial_requires access (Exp.code_requires hcall index h)
  | .convert pos conversion operand, h =>
    Code.ofPush_requires (Site.pushConstant_requires
      (Site.evalWith_requires site.conValue (.convert pos conversion operand) h))
  | .constant pos operand, h =>
    Code.ofPush_requires (Site.pushConstant_requires
      (Site.evalWith_requires site.conValue (.constant pos operand) h))
  | .cog pos which e stack, h => by
    refine Code.ofValue_requires fun keep => ?_
    rw [Exp.invocations_cog, List.mem_append, List.mem_append, or_assoc] at h
    rcases h with h | h | h
    · obtain ⟨code, hcode, h⟩ := Exp.code?_requires hcall which h
      rw [hcode]
      exact Site.startCog_which_requires keep h
    · cases e with
      | name pos' n =>
        obtain ⟨_, _, rfl⟩ := Site.mem_invokes.mp h
        cases hcall
      | call pos' object index n args trap =>
        cases object with
        | some object =>
          exact Site.startCog_value_requires keep (by simp) (by simp) (Exp.code_requires hcall _ h)
        | none =>
          rw [Exp.started, List.mem_append, List.mem_append, or_assoc] at h
          rcases h with h | h | h
          · obtain ⟨_, _, rfl⟩ := Site.mem_invokes.mp h
            cases hcall
          · obtain ⟨_, _, rfl⟩ := List.mem_map.mp h
            cases hcall
          · obtain ⟨code, hmem, h⟩ := Exp.codes_requires hcall args h
            exact Site.startCog_call_requires pos' index n trap keep hmem h
      | _ =>
        exact Site.startCog_value_requires keep (by simp) (by simp) (Exp.code_requires hcall _ h)
    · exact Site.startCog_stack_requires keep (Exp.code_requires hcall stack h)
  | .stringCompare pos left right, h => by
    apply Code.ofPush_requires
    rcases List.mem_append.mp h with h | h
    · exact .first (Exp.code_requires hcall left h).push
    · exact .rest fun _ => .first (Exp.code_requires hcall right h).push
  | .stringSize pos operand, h =>
    Code.ofPush_requires (.first (Exp.code_requires hcall operand h).push)
  | .lock pos op args, h => by
    obtain ⟨code, hmem, hcode⟩ := Exp.codes_requires hcall args h
    exact Code.ofValue_requires fun keep => Site.lock_requires op keep hmem hcode

/-- Of expressions that contain a call, the code of one requires that the call fits. -/
theorem Exp.codes_requires (hcall : invocation.manner = .call) :
    ∀ es : List Exp, invocation ∈ Exp.invocationsList site es →
      ∃ code ∈ Exp.codes site es, code.Requires invocation.Fits
  | e :: rest, h => by
    rcases List.mem_append.mp h with h | h
    · exact ⟨_, .head _, Exp.code_requires hcall e h⟩
    · obtain ⟨code, hmem, hcode⟩ := Exp.codes_requires hcall rest h
      exact ⟨code, .tail _ hmem, hcode⟩

/-- Of indices that contain a call, one requires that the call fits. -/
theorem Exp.terms_requires (hcall : invocation.manner = .call) :
    ∀ es : List Exp, invocation ∈ Exp.invocationsList site es →
      ∃ term ∈ Exp.terms site es, term.Requires site invocation.Fits
  | e :: rest, h => by
    rcases List.mem_append.mp h with h | h
    · exact ⟨_, .head _, (Exp.code_requires hcall e h).push, Site.evalWith_requires _ e h⟩
    · obtain ⟨term, hmem, hterm⟩ := Exp.terms_requires hcall rest h
      exact ⟨term, .tail _ hmem, hterm⟩

theorem Exp.code?_requires (hcall : invocation.manner = .call) :
    ∀ e : Option Exp, invocation ∈ Exp.invocations? site e →
      ∃ code, Exp.code? site e = some code ∧ code.Requires invocation.Fits
  | some e, h => ⟨_, rfl, Exp.code_requires hcall e h⟩

/-- Of items that contain a call, one requires that the call fits. -/
theorem Exp.rangeCodes_requires (hcall : invocation.manner = .call) :
    ∀ items : List (Range Exp), invocation ∈ Exp.invocationsRanges site items →
      ∃ item ∈ Exp.rangeCodes site items, item.Requires invocation.Fits
  | .single e :: rest, h => by
    rcases List.mem_append.mp h with h | h
    · exact ⟨_, .head _, Exp.code_requires hcall e h⟩
    · obtain ⟨item, hmem, hitem⟩ := Exp.rangeCodes_requires hcall rest h
      exact ⟨item, .tail _ hmem, hitem⟩
  | .span low high :: rest, h => by
    rcases List.mem_append.mp h with h | h
    · rcases List.mem_append.mp h with h | h
      · exact ⟨_, .head _, .inl (Exp.code_requires hcall low h)⟩
      · exact ⟨_, .head _, .inr (Exp.code_requires hcall high h)⟩
    · obtain ⟨item, hmem, hitem⟩ := Exp.rangeCodes_requires hcall rest h
      exact ⟨item, .tail _ hmem, hitem⟩

end

/-! ### Statements -/

/-- A call in a list of expressions is in one of them. -/
theorem Exp.exists_of_mem_invocationsList {es : List Exp}
    (h : invocation ∈ Exp.invocationsList site es) :
  ∃ e ∈ es, invocation ∈ e.invocations site
  := by
  induction es with
  | nil => cases h
  | cons e rest ih =>
    rcases List.mem_append.mp h with h | h
    · exact ⟨e, .head _, h⟩
    · obtain ⟨e', hmem, h⟩ := ih h
      exact ⟨e', .tail _ hmem, h⟩

namespace Site

variable {p : Prop}

/-- Leaving a method with a value requires what the value requires. -/
theorem leaveMethod_requires (bare : UInt8) {value : Option Exp} {code : Code}
    (hcode : Exp.code? site value = some code) (h : code.Requires p) :
  Requires (site.leaveMethod bare value) p
  := by
  cases value with
  | none => cases hcode
  | some e =>
    cases hcode
    exact .first h.push

/-- A built-in operation requires what any of its arguments requires. -/
theorem builtin_requires (opcode : UInt8) {args : List Exp} {e : Exp} (hmem : e ∈ args)
    (h : (e.code site).Requires p) :
  Requires (site.builtin opcode args) p
  := .first (.forM hmem h.push)

/-- A branch requires what its condition or either part requires. -/
theorem branch_requires (negated : Bool) {condition : Exp} {yes : Emit Unit}
    {no : Option (Emit Unit)}
    (h : (condition.code site).Requires p ∨ Requires yes p
      ∨ ∃ part, no = some part ∧ Requires part p) :
  Requires (site.branch negated condition yes no) p
  := by
  rcases h with h | h | ⟨part, rfl, h⟩
  · exact .first h.push
  · exact .rest fun _ => .rest fun _ => .rest fun _ => .first h
  · exact .rest fun _ => .rest fun _ => .rest fun _ => .rest fun _ => .rest fun _ => .rest fun _ =>
      .rest fun _ => .first h

/-- All parts of a loop's control are written. -/
theorem passes_requires {loop : Loop} {control : LoopControl} {body : Emit Unit}
    (hcall : invocation.manner = .call)
    (h : invocation ∈ control.invocations site ∨ Requires body invocation.Fits) :
  Requires (site.passes loop control body) invocation.Fits
  := by
  cases control with
  | forever =>
    rcases h with h | h
    · cases h
    · exact .rest fun _ => .first h
  | times count =>
    rcases h with h | h
    · exact .first (Exp.code_requires hcall count h).push
    · exact .rest fun _ => .rest fun _ => .rest fun _ => .rest fun _ => .first h
  | before negated condition =>
    rcases h with h | h
    · exact .rest fun _ => .first (Exp.code_requires hcall condition h).push
    · exact .rest fun _ => .rest fun _ => .rest fun _ => .first h
  | after negated condition =>
    rcases h with h | h
    · exact .rest fun _ => .rest fun _ => .rest fun _ => .rest fun _ =>
        .first (Exp.code_requires hcall condition h).push
    · exact .rest fun _ => .rest fun _ => .first h
  | fromTo counter first last step =>
    rw [passes]
    refine .rest fun _ => ?_
    rcases h with h | h
    · rw [LoopControl.invocations, List.mem_append, List.mem_append, List.mem_append, or_assoc,
        or_assoc] at h
      rcases h with h | h | h | h
      · exact .rest fun _ => .first ((Exp.code_requires hcall counter h).access .store)
      · exact .first (Exp.code_requires hcall first h).push
      · have hlast := (Exp.code_requires hcall last h).push
        cases step with
        | none =>
          exact .rest fun _ => .rest fun _ => .rest fun _ => .rest fun _ => .rest fun _ =>
            .rest fun _ => .first hlast
        | some e =>
          exact .rest fun _ => .rest fun _ => .rest fun _ => .rest fun _ => .rest fun _ =>
            .rest fun _ => .rest fun _ => .first hlast
      · cases step with
        | none => cases h
        | some e =>
          exact .rest fun _ => .rest fun _ => .rest fun _ => .rest fun _ => .rest fun _ =>
            .first (Exp.code_requires hcall e h).push
    · exact .rest fun _ => .rest fun _ => .rest fun _ => .first h

/-- A loop requires that the calls in its control and in its body fit. -/
theorem loop_requires {control : LoopControl} {body : Emit Unit}
    (hcall : invocation.manner = .call)
    (h : invocation ∈ control.invocations site ∨ Requires body invocation.Fits) :
  Requires (site.loop control body) invocation.Fits
  := by
  intro d u d' hyields
  obtain ⟨m, hpart, _⟩ := Emit.yields_restoring.mp hyields
  revert hpart
  exact Requires.rest (fun next => .rest fun quit => .rest fun _ =>
    .first (passes_requires hcall h)) d u m

/-- The tests or the body of an arm cannot be written unless `p` holds. -/
def ArmRequires (site : Site) (p : Prop) (arm : List (Range Exp) × Emit Unit) : Prop :=
  (∃ item ∈ Exp.rangeCodes site arm.1, item.Requires p) ∨ Requires arm.2 p

/-- A selection requires what its value, any arm or the rest requires. -/
theorem select_requires {value : Exp} {arms : List (List (Range Exp) × Emit Unit)}
    {other : Emit Unit}
    (h : (value.code site).Requires p ∨ (∃ arm ∈ arms, site.ArmRequires p arm)
      ∨ Requires other p) :
  Requires (site.select value arms other) p
  := by
  refine .rest fun done => .rest fun _ => ?_
  rcases h with h | ⟨arm, hmem, h⟩ | h
  · exact .first h.push
  · refine .rest fun _ => ?_
    intro d u d' hyields
    obtain ⟨targets, m, htargets, hrest⟩ := yields_bind.mp hyields
    -- each arm has a target of its own
    have hlength := length_of_mapM htargets
    obtain ⟨i, hi, rfl⟩ := List.mem_iff_getElem.mp hmem
    have hpair : (arms[i], targets[i]) ∈ arms.zip targets := by
      rw [← List.getElem_zip (h := by rw [List.length_zip]; omega)]
      exact List.getElem_mem _
    rcases h with ⟨item, hitem, h⟩ | h
    · have htest : Requires (site.armTests arms[i].1 targets[i]) p :=
        .forM hitem (rangeItem_requires h)
      exact Requires.first (.forM hpair htest) _ _ _ hrest
    · have hbody : Requires (armBody arms[i].2 targets[i]) p := .rest fun _ => .first h
      exact Requires.rest (fun _ => .rest fun _ => .rest fun _ => .first (.forM hpair hbody))
        _ _ _ hrest
  · exact .rest fun _ => .rest fun _ => .rest fun _ => .first h

theorem cases_requires {value : Exp} {arms : List (List (Range Exp) × Emit Unit)}
    {other : Emit Unit}
    (h : (value.code site).Requires p ∨ (∃ arm ∈ arms, site.ArmRequires p arm)
      ∨ Requires other p) :
  Requires (site.cases value arms other) p
  := .rest fun _ => .first (select_requires h)

end Site

mutual

/-- A statement is compiled only if every call in it fits. -/
theorem Stmt.emit_requires (hcall : invocation.manner = .call) :
    ∀ statement : Stmt, invocation ∈ statement.invocations site →
      Requires (statement.emit site) invocation.Fits
  | .exp pos e, h => (Exp.code_requires hcall e h).value false
  | .ret pos value, h => by
    obtain ⟨code, hcode, h⟩ := Exp.code?_requires hcall value h
    exact Site.leaveMethod_requires 0x32 hcode h
  | .abort pos value, h => by
    obtain ⟨code, hcode, h⟩ := Exp.code?_requires hcall value h
    exact Site.leaveMethod_requires 0x30 hcode h
  | .branch pos negated condition yes none, h => by
    rw [Stmt.emit]
    refine Site.branch_requires negated ?_
    rcases List.mem_append.mp h with h | h
    · exact .inl (Exp.code_requires hcall condition h)
    · exact .inr (.inl (Stmt.block_requires hcall yes h))
  | .branch pos negated condition yes (some no), h => by
    rw [Stmt.emit]
    refine Site.branch_requires negated ?_
    rw [Stmt.invocations, List.mem_append, List.mem_append, or_assoc] at h
    rcases h with h | h | h
    · exact .inl (Exp.code_requires hcall condition h)
    · exact .inr (.inl (Stmt.block_requires hcall yes h))
    · exact .inr (.inr ⟨_, rfl, Stmt.block_requires hcall no h⟩)
  | .loop pos control body, h => by
    rw [Stmt.emit]
    refine Site.loop_requires hcall ?_
    rcases List.mem_append.mp h with h | h
    · exact .inl h
    · exact .inr (Stmt.block_requires hcall body h)
  | .select pos value arms other, h => by
    rw [Stmt.emit]
    refine Site.cases_requires ?_
    rw [Stmt.invocations, List.mem_append, List.mem_append, or_assoc] at h
    rcases h with h | h | h
    · exact .inl (Exp.code_requires hcall value h)
    · exact .inr (.inl (Stmt.arms_requires hcall arms h))
    · exact .inr (.inr (Stmt.block_requires hcall other h))
  | .fillMove pos op args, h | .wait pos op args, h => by
    obtain ⟨e, hmem, h⟩ := Exp.exists_of_mem_invocationsList h
    exact Site.builtin_requires op.opcode hmem (Exp.code_requires hcall e h)
  | .clkset pos mode frequency, h => by
    rcases List.mem_append.mp h with h | h
    · exact Site.builtin_requires 0x20 (.head _) (Exp.code_requires hcall mode h)
    · exact Site.builtin_requires 0x20 (.tail _ (.head _)) (Exp.code_requires hcall frequency h)
  | .cogstop pos cog, h => Site.builtin_requires 0x21 (.head _) (Exp.code_requires hcall cog h)

/-- A block is compiled only if every call in it fits. -/
theorem Stmt.block_requires (hcall : invocation.manner = .call) :
    ∀ body : List Stmt, invocation ∈ Stmt.blockInvocations site body →
      Requires (Stmt.block site body) invocation.Fits
  | statement :: rest, h => by
    rcases List.mem_append.mp h with h | h
    · exact .first (Stmt.emit_requires hcall statement h)
    · exact .rest fun _ => Stmt.block_requires hcall rest h

/-- A call in some arm is required to fit by the code of that arm. -/
theorem Stmt.arms_requires (hcall : invocation.manner = .call) :
    ∀ arms : List Arm, invocation ∈ Stmt.armInvocations site arms →
      ∃ arm ∈ Stmt.arms site arms, site.ArmRequires invocation.Fits arm
  | .mk tests body :: rest, h => by
    rw [Stmt.armInvocations, List.mem_append, List.mem_append, or_assoc] at h
    rcases h with h | h | h
    · exact ⟨_, .head _, .inl (Exp.rangeCodes_requires hcall tests h)⟩
    · exact ⟨_, .head _, .inr (Stmt.block_requires hcall body h)⟩
    · obtain ⟨arm, hmem, harm⟩ := Stmt.arms_requires hcall rest h
      exact ⟨arm, .tail _ hmem, harm⟩

end

namespace Site

/-- In statements that are accepted every call of a method, of the object itself or of a sub-object
and at any depth, has as many arguments as the method has parameters. -/
theorem calls_fit {body : List Stmt} {memo memo' : Memo} {draft : Draft}
    (h : Yields (site.draft body) memo draft memo') :
  ∀ invocation ∈ Stmt.blockInvocations site body, invocation.manner = .call → invocation.Fits
  := by
  intro invocation hmem hcall
  obtain ⟨hblock, _⟩ := yields_draft.mp h
  exact Stmt.block_requires hcall body hmem _ _ _ hblock

/-- An object with two methods and a sub-object. -/
def plantSite : Site :=
  { objects := [
      { file := "plant"
        names := [("POLL", .method 0), ("FEED", .method 1), ("PUMP", .sub 0)]
        subs := [
          { name := { name := "pump" }, file := { name := "pump" }, countExp := none
            ownsVars := true, target := 1, count := 2, index := 3 }]
        methods := [
          { name := { name := "poll" }, isPublic := true, result := none, params := []
            locals := [], body := [], index := 1 },
          { name := { name := "feed" }, isPublic := true, result := none
            params := [{ name := "amount" }], locals := [], body := [], index := 2 }] },
      { file := "pump"
        names := [("SET", .method 0)]
        methods := [
          { name := { name := "set" }, isPublic := true, result := none
            params := [{ name := "rate" }, { name := "limit" }], locals := [], body := []
            index := 1 }] }]
    obj := 0 }

/-- Feeds what is polled, and sets one of the pumps. -/
def plantBody : List Stmt :=
  [.loop {} (.before false (.name {} "poll"))
    [.exp {} (.call {} none none "feed" [.binary {} .add (.name {} "poll") (.int {} 1)] false),
      .exp {} (.call {} (some "pump") (some (.int {} 1)) "set" [.int {} 5, .name {} "poll"] false)]]

theorem calls_fit_plant :
  ∃ draft memo, Yields (plantSite.draft plantBody) [] draft memo
    ∧ (Stmt.blockInvocations plantSite plantBody).map (fun i => (i.method.name.name, i.given))
      = [("poll", 0), ("feed", 1), ("poll", 0), ("set", 2), ("poll", 0)]
    ∧ ∀ invocation ∈ Stmt.blockInvocations plantSite plantBody, invocation.Fits
  := by
  have hresult : ((plantSite.draft plantBody).run.run []).1.toBool = true := by decide +kernel
  have hall : ∀ invocation ∈ Stmt.blockInvocations plantSite plantBody,
      invocation.manner = .call := by decide +kernel
  cases hdraft : ((plantSite.draft plantBody).run.run []).1 with
  | error fault =>
    rw [hdraft] at hresult
    cases hresult
  | ok draft =>
    have hyields := Yields.of_result hdraft
    refine ⟨draft, _, hyields, by decide +kernel, ?_⟩
    intro invocation hmem
    exact calls_fit hyields invocation hmem (hall invocation hmem)

/-- Starts a cog with a method that has no parameters, and gives it an argument. -/
def launchOfPoll : List Stmt :=
  [.exp {} (.cog {} none (.call {} none none "poll" [.int {} 7] false) (.int {} 0))]

/-- The arguments of a method that a cog is started with are not counted. -/
theorem launch_misfits :
  ∃ draft memo, Yields (plantSite.draft launchOfPoll) [] draft memo
    ∧ ∃ invocation ∈ Stmt.blockInvocations plantSite launchOfPoll, ¬ invocation.Fits
  := by
  have hresult : ((plantSite.draft launchOfPoll).run.run []).1.toBool = true := by decide +kernel
  cases hdraft : ((plantSite.draft launchOfPoll).run.run []).1 with
  | error fault =>
    rw [hdraft] at hresult
    cases hresult
  | ok draft => exact ⟨draft, _, Yields.of_result hdraft, by decide +kernel⟩

end Site

end SpinHub
