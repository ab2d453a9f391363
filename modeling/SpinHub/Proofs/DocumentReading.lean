import Mathlib
import SpinHub.Proofs.DocumentShapes

/-!
# Documents of programs are read back

The document of a syntax tree without floats is read as the tree, by induction on its parts.
All its numbers are whole, so its text is read as the document.
-/

namespace SpinHub

/-! ### Syntax trees without floats -/

/-- The values of a range. -/
def Range.values {α : Type} : Range α → List α
  | .single value => [value]
  | .span low high => [low, high]

/-- The values that name the bits of a register. -/
def Bits.values {α : Type} : Bits α → List α
  | .all => []
  | .one bit => [bit]
  | .field high low => [high, low]

namespace Exp

/-- The expressions that an expression is made of. -/
def parts : Exp → List Exp
  | int _ _ | float _ _ | name _ _ | member _ _ _ | readOnly _ _ | string _ _ | here _
  | absolute _ _ => []
  | cell _ _ _ args | lock _ _ args => args
  | memory _ _ base index => base :: index.toList
  | call _ _ objectIndex _ args _ => objectIndex.toList ++ args
  | unary _ _ operand | special _ operand | convert _ _ operand | constant _ operand
  | stringSize _ operand => [operand]
  | binary _ _ left right | assign _ _ left right | stringCompare _ left right => [left, right]
  | look _ _ value items => value :: items.flatMap Range.values
  | register _ _ bits => bits.values
  | cog _ which code stack => which.toList ++ [code, stack]

/-- No part of the expression is a float, at any depth. -/
inductive FloatFree : Exp → Prop
  | intro {e : Exp} (hself : ∀ pos x, e ≠ .float pos x)
      (hparts : ∀ part ∈ e.parts, FloatFree part) : FloatFree e

end Exp

/-- The expressions of a loop's control. -/
def LoopControl.exps : LoopControl → List Exp
  | .forever => []
  | .times count => [count]
  | .before _ condition | .after _ condition => [condition]
  | .fromTo counter first last step => [counter, first, last] ++ step.toList

/-- The expressions that select an arm of a CASE. -/
def Arm.exps : Arm → List Exp
  | .mk tests _ => tests.flatMap Range.values

/-- The statements of an arm of a CASE. -/
def Arm.body : Arm → List Stmt
  | .mk _ body => body

namespace Stmt

/-- The expressions that stand in a statement itself. -/
def exps : Stmt → List Exp
  | exp _ e | cogstop _ e => [e]
  | ret _ value | abort _ value => value.toList
  | branch _ _ condition _ _ => [condition]
  | loop _ control _ => control.exps
  | next _ | quit _ | reboot _ => []
  | select _ value arms _ => value :: arms.flatMap Arm.exps
  | fillMove _ _ args | wait _ _ args => args
  | clkset _ mode frequency => [mode, frequency]

/-- The statements that a statement is made of. -/
def parts : Stmt → List Stmt
  | branch _ _ _ yes no => yes ++ no.getD []
  | loop _ _ body => body
  | select _ _ arms other => arms.flatMap Arm.body ++ other
  | exp _ _ | ret _ _ | abort _ _ | next _ | quit _ | reboot _ | fillMove _ _ _ | wait _ _ _
  | clkset _ _ _ | cogstop _ _ => []

/-- No expression of the statement or of a statement in it has a float. -/
inductive FloatFree : Stmt → Prop
  | intro {s : Stmt} (hexps : ∀ e ∈ s.exps, e.FloatFree)
      (hparts : ∀ part ∈ s.parts, FloatFree part) : FloatFree s

end Stmt

/-- The expressions of an entry of a DAT section. -/
def DatEntry.exps : DatEntry → List Exp
  | .label _ _ | .orgx _ | .file _ _ => []
  | .org _ e | .res _ e | .fit _ e => e.toList
  | .instruction i => i.dest.toList ++ i.source.toList
  | .data d => d.value :: d.count.toList

/-- No expression of the object has a float. -/
structure SourceObject.FloatFree (object : SourceObject) : Prop where
  constants : ∀ con ∈ object.constants, con.value.FloatFree
  vars : ∀ var ∈ object.vars, ∀ dim ∈ var.dims, dim.FloatFree
  objs : ∀ obj ∈ object.objs, ∀ e ∈ obj.count.toList, e.FloatFree
  locals : ∀ method ∈ object.methods, ∀ decl ∈ method.locals, ∀ e ∈ decl.count.toList, e.FloatFree
  bodies : ∀ method ∈ object.methods, ∀ s ∈ method.body, s.FloatFree
  dat : ∀ entry ∈ object.dat, ∀ e ∈ entry.exps, e.FloatFree

/-- No expression of the program has a float. -/
def Program.FloatFree (program : Program) : Prop :=
  ∀ object ∈ program.objects, object.FloatFree

namespace Document

variable {α : Type} {limit : Nat}

/-! ### Names and positions -/

theorem reads_pos (pos : Pos) :
  ReadsBack limit pos? (posJson pos) pos
  := by
  apply ReadsBack.record (by simp)
  intro levels hlevels hfields
  simp [Field.required]

theorem reads_ident (ident : Ident) :
  ReadsBack limit ident? (identJson ident) ident
  := by
  apply ReadsBack.record (by simp)
  rintro levels hlevels ⟨-, hpos⟩
  simp [Field.required, Field.orDefault, reads_pos ident.pos levels hlevels.le hpos]

/-- A record of a place and what stands there, by a reader for the latter. -/
theorem ReadsBack.placed {kind? : Pos → Reading α} {pos : Pos} {contents : Json} {a : α}
    (h : ReadsBack limit (kind? pos) contents a) :
  ReadsBack (limit + 1) (fun levels j => do
      let (levels, [pos, kind]) ← record? ["pos", "kind"] levels j | none
      let pos ← pos.orDefault (pos? levels) {}
      kind.required (kind? pos levels)) (placed pos contents) a
  := by
  apply ReadsBack.record (by simp)
  rintro levels hlevels ⟨hpos, hcontents⟩
  have hpos' := reads_pos pos levels le_rfl hpos
  simp [Field.required, Field.orDefault, hpos', h levels (by omega) hcontents]

/-- A record is never read where no level is left. -/
theorem ReadsBack.zero {read : Reading α} {pos : Pos} {contents : Json} {a : α} :
  ReadsBack 0 read (Document.placed pos contents) a
  := by
  intro levels hlimit hdepth
  cases hlimit
  cases hdepth

/-! ### Expressions -/

section

variable {read : Reading Exp}

theorem expsJson_eq (es : List Exp) :
  expsJson es = es.map expJson
  := by
  induction es with
  | nil => rfl
  | cons e es ih => rw [expsJson, ih, List.map_cons]

theorem rangesJson_eq (rs : List (Range Exp)) :
  rangesJson rs = rs.map rangeJson
  := by
  induction rs with
  | nil => rfl
  | cons r rs ih => rw [rangesJson, ih, List.map_cons]

theorem optionJson_eq (e : Option Exp) :
  optionJson e = .ofOption expJson e
  := by
  cases e <;> rfl

/-- The document of an expression is a record of its place and what stands there. -/
theorem expJson_placed (e : Exp) :
  ∃ contents, expJson e = placed e.pos contents
  := by
  cases e <;> exact ⟨_, rfl⟩

/-- The document of an expression is never null, so one that may be missing is told from none. -/
theorem expJson_ne_null (e : Exp) :
  expJson e ≠ .null
  := by
  obtain ⟨contents, hplaced⟩ := expJson_placed e
  rw [hplaced]
  nofun

/-- Expressions in a list. -/
theorem reads_exps {es : List Exp} (h : ∀ e ∈ es, ReadsBack limit read (expJson e) e) :
  ReadsBack limit (list? read) (.list (expsJson es)) es
  := by
  rw [expsJson_eq]
  exact ReadsBack.list h

/-- An expression that may be left out. -/
theorem reads_option {o : Option Exp} (h : ∀ e ∈ o.toList, ReadsBack limit read (expJson e) e) :
  ReadsBack limit (fun levels => option? (read levels)) (optionJson o) o
  := by
  rw [optionJson_eq]
  apply ReadsBack.option expJson_ne_null
  intro e he
  exact h e (Option.mem_toList.mpr he)

/-- One value or a span of them. -/
theorem reads_range {r : Range Exp} (h : ∀ e ∈ r.values, ReadsBack limit read (expJson e) e) :
  ReadsBack limit (range? read) (rangeJson r) r
  := by
  cases r with
  | single e =>
    have he := h e (by simp [Range.values])
    apply ReadsBack.alternative
    intro levels hlevels hdepth
    simp [he levels hlevels hdepth]
  | span low high =>
    have hlow := h low (by simp [Range.values])
    have hhigh := h high (by simp [Range.values])
    apply ReadsBack.alternative
    apply ReadsBack.items
    rintro levels hlevels ⟨hl, hh⟩
    simp [hlow levels hlevels.le hl, hhigh levels hlevels.le hh]

/-- Ranges in a list. -/
theorem reads_ranges {rs : List (Range Exp)}
    (h : ∀ e ∈ rs.flatMap Range.values, ReadsBack limit read (expJson e) e) :
  ReadsBack limit (list? (range? read)) (.list (rangesJson rs)) rs
  := by
  rw [rangesJson_eq]
  apply ReadsBack.list
  intro r hr
  apply reads_range
  intro e he
  exact h e (List.mem_flatMap.mpr ⟨r, hr, he⟩)

/-- The bits of a register; null stands for all of them. -/
theorem reads_bits {bits : Bits Exp} (h : ∀ e ∈ bits.values, ReadsBack limit read (expJson e) e) :
  ReadsBack limit (fun levels j => (option? (bits? read levels) j).map (·.getD .all))
    (bitsJson bits) bits
  := by
  cases bits with
  | all =>
    intro levels hlimit hdepth
    rfl
  | one bit =>
    have hbit := h bit (by simp [Bits.values])
    have hread : ReadsBack limit (bits? read) (.list [expJson bit, .null]) (.one bit) := by
      apply ReadsBack.items
      rintro levels hlevels ⟨hb, -⟩
      simp [hbit levels hlevels.le hb, option?]
    intro levels hlimit hdepth
    simp [bitsJson, option?, hread levels hlimit hdepth]
  | field high low =>
    have hhigh := h high (by simp [Bits.values])
    have hlow := reads_option (o := some low) fun e he => h e (by simp_all [Bits.values])
    have hread : ReadsBack limit (bits? read) (.list [expJson high, expJson low])
        (.field high low) := by
      apply ReadsBack.items
      rintro levels hlevels ⟨hh, hl⟩
      have hpresent : option? (read levels) (expJson low) = some (some low) :=
        hlow levels hlevels.le hl
      simp [hhigh levels hlevels.le hh, hpresent]
    intro levels hlimit hdepth
    simp [bitsJson, option?, hread levels hlimit hdepth]

end

/-- An expression is read if its parts are. -/
theorem reads_exp_of_parts {e : Exp} (hself : ∀ pos x, e ≠ .float pos x)
    (hparts : ∀ part ∈ e.parts, ReadsBack limit (expWithin? limit) (expJson part) part) :
  ReadsBack (limit + 1) (expWithin? (limit + 1)) (expJson e) e
  := by
  cases e
  case float pos x => exact absurd rfl (hself pos x)
  -- All kinds but one have contents, which stand under the name of the kind.
  all_goals apply ReadsBack.placed
  case here pos =>
    intro levels hlevels hdepth
    rfl
  all_goals
    simp only [Exp.parts, List.forall_mem_cons, List.forall_mem_append] at hparts
    apply ReadsBack.alternative
    simp only [String.reduceEq, imp_self]
  case int | name | string | absolute =>
    intro levels hlevels hdepth
    simp
  case readOnly =>
    intro levels hlevels hdepth
    simp [oneOf?_choice readOnlys_faithful]
  case special | constant | stringSize =>
    intro levels hlevels hdepth
    simp [hparts.1 levels hlevels hdepth]
  case cell pos n size indices =>
    apply ReadsBack.record (by simp)
    rintro levels hlevels ⟨-, -, hindices⟩
    simp [Field.required, Field.nullable, option?_choice sizes_faithful,
      reads_exps hparts levels hlevels.le hindices]
  case member =>
    apply ReadsBack.record (by simp)
    intro levels hlevels hfields
    simp [Field.required]
  case memory pos size base index =>
    obtain ⟨hbase, hindex⟩ := hparts
    apply ReadsBack.record (by simp)
    rintro levels hlevels ⟨-, hb, hi⟩
    simp [Field.required, Field.nullable, oneOf?_choice sizes_faithful,
      hbase levels hlevels.le hb, reads_option hindex levels hlevels.le hi]
  case call pos object objectIndex method args trap =>
    obtain ⟨hindex, hargs⟩ := hparts
    apply ReadsBack.record (by simp)
    rintro levels hlevels ⟨-, hi, -, ha, -⟩
    simp [Field.required, Field.nullable, reads_option hindex levels hlevels.le hi,
      reads_exps hargs levels hlevels.le ha]
  case unary pos op operand =>
    apply ReadsBack.items
    rintro levels hlevels ⟨-, ho⟩
    simp [oneOf?_choice unaryOps_faithful, hparts.1 levels hlevels.le ho]
  case convert pos conversion operand =>
    apply ReadsBack.items
    rintro levels hlevels ⟨-, ho⟩
    simp [oneOf?_choice conversions_faithful, hparts.1 levels hlevels.le ho]
  case binary pos op left right =>
    obtain ⟨hleft, hright, -⟩ := hparts
    apply ReadsBack.items
    rintro levels hlevels ⟨-, hl, hr⟩
    simp [oneOf?_choice binaryOps_faithful, hleft levels hlevels.le hl, hright levels hlevels.le hr]
  case assign pos op target value =>
    obtain ⟨htarget, hvalue, -⟩ := hparts
    apply ReadsBack.record (by simp)
    rintro levels hlevels ⟨-, ht, hv⟩
    simp [Field.required, Field.nullable, option?_choice binaryOps_faithful,
      htarget levels hlevels.le ht, hvalue levels hlevels.le hv]
  case look pos kind value items =>
    obtain ⟨hvalue, hitems⟩ := hparts
    apply ReadsBack.record (by simp)
    rintro levels hlevels ⟨-, hv, hi⟩
    simp [Field.required, oneOf?_choice lookKinds_faithful, hvalue levels hlevels.le hv,
      reads_ranges hitems levels hlevels.le hi]
  case register pos reg bits =>
    apply ReadsBack.record (by simp)
    rintro levels hlevels ⟨-, hb⟩
    have hbits := reads_bits hparts levels hlevels.le hb
    obtain ⟨found, hfound, hall⟩ := Option.map_eq_some_iff.mp hbits
    simp [Field.required, Field.nullable, hfound, hall]
  case cog pos which code stack =>
    obtain ⟨hwhich, hcode, hstack, -⟩ := hparts
    apply ReadsBack.record (by simp)
    rintro levels hlevels ⟨hw, hc, hs⟩
    simp [Field.required, Field.nullable, reads_option hwhich levels hlevels.le hw,
      hcode levels hlevels.le hc, hstack levels hlevels.le hs]
  case stringCompare pos left right =>
    obtain ⟨hleft, hright, -⟩ := hparts
    apply ReadsBack.items
    rintro levels hlevels ⟨hl, hr⟩
    simp [hleft levels hlevels.le hl, hright levels hlevels.le hr]
  case lock pos op args =>
    apply ReadsBack.items
    rintro levels hlevels ⟨-, ha⟩
    simp [oneOf?_choice locks_faithful, reads_exps hparts levels hlevels.le ha]

/-- Enough rounds read an expression without floats. -/
theorem reads_expWithin {e : Exp} (h : e.FloatFree) (limit : Nat) :
  ReadsBack limit (expWithin? limit) (expJson e) e
  := by
  induction h generalizing limit with
  | @intro e hself _ ih =>
    -- A round more than the parts need: each expression uses up a level itself.
    cases limit with
    | zero =>
      obtain ⟨contents, hplaced⟩ := expJson_placed e
      rw [hplaced]
      exact ReadsBack.zero
    | succ limit => exact reads_exp_of_parts hself fun part hpart => ih part hpart limit

/-- The document of an expression without floats is read as the expression. -/
theorem reads_exp {e : Exp} (h : e.FloatFree) :
  ReadsBack limit exp? (expJson e) e
  := by
  intro levels hlimit hdepth
  exact reads_expWithin h levels levels le_rfl hdepth

/-! ### Statements -/

section

variable {read : Reading Stmt}

theorem stmtsJson_eq (ss : List Stmt) :
  stmtsJson ss = ss.map stmtJson
  := by
  induction ss with
  | nil => rfl
  | cons s ss ih => rw [stmtsJson, ih, List.map_cons]

theorem armsJson_eq (arms : List Arm) :
  armsJson arms = arms.map armJson
  := by
  induction arms with
  | nil => rfl
  | cons arm arms ih => rw [armsJson, ih, List.map_cons]

/-- Statements in a list. -/
theorem reads_stmts {ss : List Stmt} (h : ∀ s ∈ ss, ReadsBack limit read (stmtJson s) s) :
  ReadsBack limit (list? read) (.list (stmtsJson ss)) ss
  := by
  rw [stmtsJson_eq]
  exact ReadsBack.list h

/-- The statements of a branch that may be left out. -/
theorem reads_else {no : Option (List Stmt)}
    (h : ∀ s ∈ no.getD [], ReadsBack limit read (stmtJson s) s) :
  ReadsBack limit (fun levels => option? (list? read levels))
    (.ofOption (fun ss => .list (stmtsJson ss)) no) no
  := by
  apply ReadsBack.option nofun
  rintro ss rfl
  exact reads_stmts h

/-- An arm of a CASE is read if its statements are. -/
theorem reads_arm {arm : Arm} (hexps : ∀ e ∈ arm.exps, e.FloatFree)
    (hbody : ∀ s ∈ arm.body, ReadsBack limit read (stmtJson s) s) :
  ReadsBack limit (arm? read) (armJson arm) arm
  := by
  obtain ⟨tests, body⟩ := arm
  dsimp only [Arm.exps, Arm.body] at hexps hbody
  apply ReadsBack.record (by simp)
  rintro levels hlevels ⟨ht, hb⟩
  have htests := reads_ranges (fun e he => reads_exp (hexps e he)) levels hlevels.le ht
  have hread := reads_stmts hbody levels hlevels.le hb
  simp [Field.required, htests, hread]

/-- The arms of a CASE are read if the statements in them are. -/
theorem reads_arms {arms : List Arm} (hexps : ∀ e ∈ arms.flatMap Arm.exps, e.FloatFree)
    (hbody : ∀ s ∈ arms.flatMap Arm.body, ReadsBack limit read (stmtJson s) s) :
  ReadsBack limit (list? (arm? read)) (.list (armsJson arms)) arms
  := by
  rw [armsJson_eq]
  apply ReadsBack.list
  intro arm harm
  apply reads_arm
  · intro e he
    exact hexps e (List.mem_flatMap.mpr ⟨arm, harm, he⟩)
  · intro s hs
    exact hbody s (List.mem_flatMap.mpr ⟨arm, harm, hs⟩)

/-- What stands in a loop is read if the statements of its body are. -/
theorem reads_loop {pos : Pos} {control : LoopControl} {body : List Stmt}
    (hexps : ∀ e ∈ control.exps, e.FloatFree)
    (hbody : ∀ s ∈ body, ReadsBack limit read (stmtJson s) s) :
  ReadsBack limit (loop? read pos) (loopJson control (.list (stmtsJson body)))
    (.loop pos control body)
  := by
  have hstmts := reads_stmts hbody
  cases control
  all_goals
    simp only [LoopControl.exps, List.forall_mem_cons, List.forall_mem_append] at hexps
    apply ReadsBack.alternative
    simp only
  case forever =>
    intro levels hlevels hdepth
    simp [hstmts levels hlevels hdepth]
  case times count =>
    apply ReadsBack.record (by simp)
    rintro levels hlevels ⟨hc, hb⟩
    simp [Field.required, reads_exp hexps.1 levels hlevels.le hc, hstmts levels hlevels.le hb]
  case before | after =>
    apply ReadsBack.record (by simp)
    rintro levels hlevels ⟨-, hc, hb⟩
    simp [Field.required, reads_exp hexps.1 levels hlevels.le hc, hstmts levels hlevels.le hb]
  case fromTo counter first last step =>
    obtain ⟨⟨hcounter, hfirst, hlast, -⟩, hstep⟩ := hexps
    apply ReadsBack.record (by simp)
    rintro levels hlevels ⟨hc, hf, hl, hs, hb⟩
    have hread := reads_option (fun e he => reads_exp (hstep e he)) levels hlevels.le hs
    simp [Field.required, Field.nullable, reads_exp hcounter levels hlevels.le hc,
      reads_exp hfirst levels hlevels.le hf, reads_exp hlast levels hlevels.le hl, hread,
      hstmts levels hlevels.le hb]

end

/-- Both forms of a branch in one. -/
theorem stmtJson_branch (pos : Pos) (negated : Bool) (condition : Exp) (yes : List Stmt)
    (no : Option (List Stmt)) :
  stmtJson (.branch pos negated condition yes no) = placed pos (alternative "If" (.ofFields
    [("negate", .bool negated), ("condition", expJson condition),
     ("then", .list (stmtsJson yes)), ("els", .ofOption (fun ss => .list (stmtsJson ss)) no)]))
  := by
  cases no <;> rfl

/-- A statement is read if the statements in it are. -/
theorem reads_stmt_of_parts {s : Stmt} (hexps : ∀ e ∈ s.exps, e.FloatFree)
    (hparts : ∀ part ∈ s.parts, ReadsBack limit (stmtWithin? limit) (stmtJson part) part) :
  ReadsBack (limit + 1) (stmtWithin? (limit + 1)) (stmtJson s) s
  := by
  have hreads : ∀ e ∈ s.exps, ReadsBack limit exp? (expJson e) e := by
    intro e he
    exact reads_exp (hexps e he)
  cases s
  case' branch => rw [stmtJson_branch]
  all_goals apply ReadsBack.placed
  case next | quit | reboot =>
    intro levels hlevels hdepth
    rfl
  all_goals
    apply ReadsBack.alternative
    simp only [String.reduceEq, imp_self]
  case loop => exact reads_loop hexps hparts
  all_goals
    simp only [Stmt.parts, Stmt.exps, List.forall_mem_cons, List.forall_mem_append]
      at hparts hreads hexps
  case exp | cogstop =>
    intro levels hlevels hdepth
    simp [hreads.1 levels hlevels hdepth]
  case ret | abort =>
    intro levels hlevels hdepth
    have hvalue := reads_option hreads levels hlevels hdepth
    simp [hvalue]
  case branch pos negated condition yes no =>
    obtain ⟨hyes, hno⟩ := hparts
    apply ReadsBack.record (by simp)
    rintro levels hlevels ⟨-, hc, hy, hn⟩
    simp [Field.required, Field.nullable, hreads.1 levels hlevels.le hc,
      reads_stmts hyes levels hlevels.le hy, reads_else hno levels hlevels.le hn]
  case select pos value arms other =>
    obtain ⟨harms, hother⟩ := hparts
    apply ReadsBack.record (by simp)
    rintro levels hlevels ⟨hv, ha, ho⟩
    simp [Field.required, hreads.1 levels hlevels.le hv,
      reads_arms hexps.2 harms levels hlevels.le ha, reads_stmts hother levels hlevels.le ho]
  case fillMove pos op args =>
    apply ReadsBack.items
    rintro levels hlevels ⟨-, ha⟩
    simp [oneOf?_choice fillMoves_faithful, reads_exps hreads levels hlevels.le ha]
  case wait pos op args =>
    apply ReadsBack.items
    rintro levels hlevels ⟨-, ha⟩
    simp [oneOf?_choice waits_faithful, reads_exps hreads levels hlevels.le ha]
  case clkset pos mode frequency =>
    obtain ⟨hmode, hfrequency, -⟩ := hreads
    apply ReadsBack.items
    rintro levels hlevels ⟨hm, hf⟩
    simp [hmode levels hlevels.le hm, hfrequency levels hlevels.le hf]

/-- The document of a statement is a record of its place and what stands there. -/
theorem stmtJson_placed (s : Stmt) :
  ∃ pos contents, stmtJson s = placed pos contents
  := by
  cases s
  case branch => exact ⟨_, _, stmtJson_branch ..⟩
  all_goals exact ⟨_, _, rfl⟩

/-- Enough rounds read a statement without floats. -/
theorem reads_stmtWithin {s : Stmt} (h : s.FloatFree) (limit : Nat) :
  ReadsBack limit (stmtWithin? limit) (stmtJson s) s
  := by
  induction h generalizing limit with
  | @intro s hexps _ ih =>
    cases limit with
    | zero =>
      obtain ⟨pos, contents, hplaced⟩ := stmtJson_placed s
      rw [hplaced]
      exact ReadsBack.zero
    | succ limit => exact reads_stmt_of_parts hexps fun part hpart => ih part hpart limit

/-- The document of a statement without floats is read as the statement. -/
theorem reads_stmt {s : Stmt} (h : s.FloatFree) :
  ReadsBack limit stmt? (stmtJson s) s
  := by
  intro levels hlimit hdepth
  exact reads_stmtWithin h levels levels le_rfl hdepth

/-! ### Declarations -/

/-- An expression without floats that may be left out. -/
theorem reads_option_exp {o : Option Exp} (h : ∀ e ∈ o.toList, e.FloatFree) :
  ReadsBack limit (fun levels => option? (exp? levels)) (optionJson o) o
  := by
  apply reads_option
  intro e he
  exact reads_exp (h e he)

/-- A declared constant without floats is read back. -/
theorem reads_conDecl {con : ConDecl} (h : con.value.FloatFree) :
  ReadsBack limit conDecl? (conDeclJson con) con
  := by
  apply ReadsBack.record (by simp)
  rintro levels hlevels ⟨hn, hv⟩
  simp [Field.required, reads_ident con.name levels hlevels.le hn,
    reads_exp h levels hlevels.le hv]

/-- A declared variable is read back, with its dimensions. -/
theorem reads_varDecl {var : VarDecl} (h : ∀ dim ∈ var.dims, dim.FloatFree) :
  ReadsBack limit varDecl? (varDeclJson var) var
  := by
  apply ReadsBack.record (by simp)
  rintro levels hlevels ⟨hn, -, hd⟩
  have hdims := ReadsBack.list (fun dim hdim => reads_exp (h dim hdim)) levels hlevels.le hd
  simp [Field.required, Field.orDefault, reads_ident var.name levels hlevels.le hn,
    oneOf?_choice sizes_faithful, hdims]

/-- A declared sub-object is read back, with its count. -/
theorem reads_objDecl {obj : ObjDecl} (h : ∀ e ∈ obj.count.toList, e.FloatFree) :
  ReadsBack limit objDecl? (objDeclJson obj) obj
  := by
  apply ReadsBack.record (by simp)
  rintro levels hlevels ⟨hn, hf, hc, -⟩
  simp [Field.required, Field.orDefault, Field.nullableOrDefault,
    reads_ident obj.name levels hlevels.le hn, reads_ident obj.file levels hlevels.le hf,
    reads_option_exp h levels hlevels.le hc]

theorem reads_localDecl {decl : LocalDecl} (h : ∀ e ∈ decl.count.toList, e.FloatFree) :
  ReadsBack limit localDecl? (localDeclJson decl) decl
  := by
  apply ReadsBack.record (by simp)
  rintro levels hlevels ⟨hn, hc⟩
  simp [Field.required, Field.orDefault, Field.nullableOrDefault,
    reads_ident decl.name levels hlevels.le hn, reads_option_exp h levels hlevels.le hc]

/-- A declared method is read back, with its locals and its body. -/
theorem reads_methodDecl {method : MethodDecl}
    (hlocals : ∀ decl ∈ method.locals, ∀ e ∈ decl.count.toList, e.FloatFree)
    (hbody : ∀ s ∈ method.body, s.FloatFree) :
  ReadsBack limit methodDecl? (methodDeclJson method) method
  := by
  have hresult : ReadsBack limit (fun levels => option? (ident? levels))
      (.ofOption identJson method.result) method.result := by
    apply ReadsBack.option nofun
    intro ident hident
    exact reads_ident ident
  apply ReadsBack.record (by simp)
  rintro levels hlevels ⟨hn, -, hr, hp, hl, hb⟩
  have hparams := ReadsBack.list (fun param _ => reads_ident param) levels hlevels.le hp
  have hdecls :=
    ReadsBack.list (fun decl h => reads_localDecl (hlocals decl h)) levels hlevels.le hl
  have hstmts := ReadsBack.list (fun s h => reads_stmt (hbody s h)) levels hlevels.le hb
  simp [Field.required, Field.orDefault, Field.nullableOrDefault,
    reads_ident method.name levels hlevels.le hn, hresult levels hlevels.le hr, hparams, hdecls,
    hstmts]

/-! ### DAT sections -/

/-- An instruction is read back, with its operands. -/
theorem reads_instruction {i : Instruction}
    (h : ∀ e ∈ i.dest.toList ++ i.source.toList, e.FloatFree) :
  ReadsBack limit instruction? (instructionJson i) i
  := by
  rw [List.forall_mem_append] at h
  have hopcode : unsigned? (.ofInt i.opcode.toNat) = some (.ofBitVec i.opcode) :=
    unsigned?_ofInt (.ofBitVec i.opcode)
  apply ReadsBack.record (by simp)
  rintro levels hlevels ⟨hp, -, -, -, hd, hs, -⟩
  simp [Field.required, Field.orDefault, Field.nullableOrDefault,
    reads_pos i.pos levels hlevels.le hp, hopcode, reads_option_exp h.1 levels hlevels.le hd,
    reads_option_exp h.2 levels hlevels.le hs]

/-- Data is read back, with its count. -/
theorem reads_datData {d : DatData} (h : ∀ e ∈ d.value :: d.count.toList, e.FloatFree) :
  ReadsBack limit datData? (datDataJson d) d
  := by
  rw [List.forall_mem_cons] at h
  apply ReadsBack.record (by simp)
  rintro levels hlevels ⟨hp, -, -, hv, hc⟩
  simp [Field.required, Field.orDefault, Field.nullableOrDefault,
    reads_pos d.pos levels hlevels.le hp, reads_exp h.1 levels hlevels.le hv,
    reads_option_exp h.2 levels hlevels.le hc]

/-- An entry of a DAT section is read back, whichever kind it is. -/
theorem reads_datEntry {entry : DatEntry} (h : ∀ e ∈ entry.exps, e.FloatFree) :
  ReadsBack limit datEntry? (datEntryJson entry) entry
  := by
  cases entry
  all_goals
    dsimp only [DatEntry.exps] at h
    apply ReadsBack.alternative
    simp only
  case label name alignment =>
    apply ReadsBack.record (by simp)
    rintro levels hlevels ⟨hn, -⟩
    simp [Field.required, reads_ident name levels hlevels.le hn]
  case orgx pos =>
    apply ReadsBack.record (by simp)
    intro levels hlevels hp
    simp [Field.required, reads_pos pos levels hlevels.le hp]
  case org pos e | res pos e | fit pos e =>
    apply ReadsBack.record (by simp)
    rintro levels hlevels ⟨hp, he⟩
    simp [Field.required, Field.nullable, reads_pos pos levels hlevels.le hp,
      reads_option_exp h levels hlevels.le he]
  case instruction i =>
    intro levels hlevels hdepth
    simp [reads_instruction h levels hlevels hdepth]
  case data d =>
    intro levels hlevels hdepth
    simp [reads_datData h levels hlevels hdepth]
  case file pos bytes =>
    have hbytes : ReadsBack limit (list? fun _ => byte?) (.list (bytes.map fun b => .ofInt b.toNat))
        bytes := by
      apply ReadsBack.list
      intro b hb levels hlimit hdepth
      exact byte?_ofInt b
    apply ReadsBack.record (by simp)
    rintro levels hlevels ⟨hp, hb⟩
    simp [Field.required, reads_pos pos levels hlevels.le hp, hbytes levels hlevels.le hb]

/-! ### Programs -/

/-- An object without floats is read back, list by list. -/
theorem reads_sourceObject {object : SourceObject} (h : object.FloatFree) :
  ReadsBack limit sourceObject? (sourceObjectJson object) object
  := by
  apply ReadsBack.record (by simp)
  rintro levels hlevels ⟨-, hc, hv, ho, hm, hd⟩
  have hconstants :=
    ReadsBack.list (fun con hcon => reads_conDecl (h.constants con hcon)) levels hlevels.le hc
  have hvars :=
    ReadsBack.list (fun var hvar => reads_varDecl (h.vars var hvar)) levels hlevels.le hv
  have hobjs :=
    ReadsBack.list (fun obj hobj => reads_objDecl (h.objs obj hobj)) levels hlevels.le ho
  have hmethods := ReadsBack.list (fun method hmethod =>
    reads_methodDecl (h.locals method hmethod) (h.bodies method hmethod)) levels hlevels.le hm
  have hdat :=
    ReadsBack.list (fun entry hentry => reads_datEntry (h.dat entry hentry)) levels hlevels.le hd
  simp [Field.required, Field.orDefault, hconstants, hvars, hobjs, hmethods, hdat]

/-- A program without floats is read back. -/
theorem reads_program {program : Program} (h : program.FloatFree) :
  ReadsBack limit program? program.toJson program
  := by
  apply ReadsBack.record (by simp)
  rintro levels hlevels ⟨-, ho⟩
  have hobjects :=
    ReadsBack.list (fun object h' => reads_sourceObject (h object h')) levels hlevels.le ho
  simp [Field.required, hobjects]

/-! ### Whole numbers -/

/-- A choice among names has no numbers, so it is whole. -/
@[simp]
theorem whole_choice [DecidableEq α] (names : Names α) (a : α) :
  (choice names a).Whole
  := trivial

/-- An alternative is whole if its contents are. -/
@[simp]
theorem whole_alternative {name : String} {contents : Json} :
  (alternative name contents).Whole ↔ contents.Whole
  := by
  simp [alternative]

/-- A position has no fractions. -/
@[simp]
theorem whole_posJson (pos : Pos) :
  (posJson pos).Whole
  := by
  simp [posJson]

@[simp]
theorem whole_placed {pos : Pos} {contents : Json} :
  (placed pos contents).Whole ↔ contents.Whole
  := by
  simp [placed]

@[simp]
theorem whole_identJson (ident : Ident) :
  (identJson ident).Whole
  := by
  simp [identJson]

@[simp]
theorem whole_rangeJson {r : Range Exp} :
  (rangeJson r).Whole ↔ ∀ e ∈ r.values, (expJson e).Whole
  := by
  cases r <;> simp [rangeJson, Range.values]

@[simp]
theorem whole_bitsJson {bits : Bits Exp} :
  (bitsJson bits).Whole ↔ ∀ e ∈ bits.values, (expJson e).Whole
  := by
  cases bits <;> simp [bitsJson, Bits.values, Json.Whole]

/-- The document of an expression without floats has whole numbers only. -/
theorem whole_expJson {e : Exp} (h : e.FloatFree) :
  (expJson e).Whole
  := by
  induction h with
  | @intro e hself _ ih =>
    cases e
    case float => exact absurd rfl (hself _ _)
    case int | name | member | readOnly | string | here | absolute => simp [expJson]
    all_goals
      simp only [Exp.parts, List.forall_mem_cons, List.forall_mem_append, List.forall_mem_flatMap,
        Option.mem_toList] at ih
      simpa [expJson, expsJson_eq, rangesJson_eq, optionJson_eq] using ih

/-- The document of a loop has whole numbers only, if the documents in it have. -/
theorem whole_loopJson {control : LoopControl} (h : ∀ e ∈ control.exps, (expJson e).Whole)
    {body : Json} (hbody : body.Whole) :
  (loopJson control body).Whole
  := by
  cases control
  case forever => simpa [loopJson] using hbody
  all_goals
    simp only [LoopControl.exps, List.forall_mem_cons, List.forall_mem_append, Option.mem_toList,
      and_assoc] at h
    simpa [loopJson, optionJson_eq, hbody] using h

/-- The document of an arm is whole if those of its tests and its statements are. -/
@[simp]
theorem whole_armJson {arm : Arm} :
  (armJson arm).Whole
    ↔ (∀ e ∈ arm.exps, (expJson e).Whole) ∧ ∀ s ∈ arm.body, (stmtJson s).Whole
  := by
  obtain ⟨tests, body⟩ := arm
  rw [Arm.exps, Arm.body, List.forall_mem_flatMap]
  simp [armJson, rangesJson_eq, stmtsJson_eq]

/-- The document of a statement has whole numbers only, if the documents in it have. -/
theorem whole_stmtJson_of_parts {s : Stmt} (hexps : ∀ e ∈ s.exps, (expJson e).Whole)
    (hparts : ∀ part ∈ s.parts, (stmtJson part).Whole) :
  (stmtJson s).Whole
  := by
  cases s
  case next | quit | reboot => simp [stmtJson]
  case loop pos control body =>
    have hbody : (Json.list (stmtsJson body)).Whole := by
      simpa [stmtsJson_eq, Stmt.parts] using hparts
    simpa [stmtJson] using whole_loopJson hexps hbody
  case' branch => rw [stmtJson_branch]
  all_goals
    simp only [Stmt.exps, Stmt.parts, List.forall_mem_cons, List.forall_mem_append,
      List.forall_mem_flatMap, Option.mem_toList] at hexps hparts
  case branch pos negated condition yes no =>
    have hno : ∀ ss ∈ no, ∀ s ∈ ss, (stmtJson s).Whole := by
      rintro ss rfl
      exact hparts.2
    simpa [stmtsJson_eq] using ⟨hexps.1, hparts.1, hno⟩
  case select pos value arms other =>
    have harms : ∀ arm ∈ arms, (∀ e ∈ arm.exps, (expJson e).Whole)
        ∧ ∀ s ∈ arm.body, (stmtJson s).Whole := by
      intro arm harm
      exact ⟨hexps.2 arm harm, hparts.1 arm harm⟩
    simpa [stmtJson, stmtsJson_eq, armsJson_eq] using ⟨hexps.1, harms, hparts.2⟩
  all_goals simpa [stmtJson, expsJson_eq, optionJson_eq] using hexps

/-- The document of a statement without floats has whole numbers only. -/
theorem whole_stmtJson {s : Stmt} (h : s.FloatFree) :
  (stmtJson s).Whole
  := by
  induction h with
  | intro hexps _ ih => exact whole_stmtJson_of_parts (fun e he => whole_expJson (hexps e he)) ih

/-- The document of an expression without floats that may be left out. -/
theorem whole_optionJson {o : Option Exp} (h : ∀ e ∈ o.toList, e.FloatFree) :
  (optionJson o).Whole
  := by
  rw [optionJson_eq, Json.whole_ofOption]
  intro e he
  exact whole_expJson (h e (Option.mem_toList.mpr he))

/-- The document of a method without floats has whole numbers only. -/
theorem whole_methodDeclJson {method : MethodDecl}
    (hlocals : ∀ decl ∈ method.locals, ∀ e ∈ decl.count.toList, e.FloatFree)
    (hbody : ∀ s ∈ method.body, s.FloatFree) :
  (methodDeclJson method).Whole
  := by
  have hdecls : ∀ decl ∈ method.locals, (localDeclJson decl).Whole := by
    intro decl hdecl
    simp [localDeclJson, whole_optionJson (hlocals decl hdecl)]
  have hstmts : ∀ s ∈ method.body, (stmtJson s).Whole := by
    intro s hs
    exact whole_stmtJson (hbody s hs)
  simpa [methodDeclJson] using ⟨hdecls, hstmts⟩

/-- The document of an entry without floats has whole numbers only. -/
theorem whole_datEntryJson {entry : DatEntry} (h : ∀ e ∈ entry.exps, e.FloatFree) :
  (datEntryJson entry).Whole
  := by
  cases entry
  case label | orgx | file => simp [datEntryJson]
  case org | res | fit => simp [datEntryJson, whole_optionJson h]
  all_goals simp only [DatEntry.exps, List.forall_mem_cons, List.forall_mem_append] at h
  case instruction =>
    simp [datEntryJson, instructionJson, whole_optionJson h.1, whole_optionJson h.2]
  case data =>
    simp [datEntryJson, datDataJson, whole_expJson h.1, whole_optionJson h.2]

/-- The document of an object without floats has whole numbers only. -/
theorem whole_sourceObjectJson {object : SourceObject} (h : object.FloatFree) :
  (sourceObjectJson object).Whole
  := by
  have hconstants : ∀ con ∈ object.constants, (conDeclJson con).Whole := by
    intro con hcon
    simp [conDeclJson, whole_expJson (h.constants con hcon)]
  have hvars : ∀ var ∈ object.vars, (varDeclJson var).Whole := by
    intro var hvar
    simpa [varDeclJson] using fun dim hdim => whole_expJson (h.vars var hvar dim hdim)
  have hobjs : ∀ obj ∈ object.objs, (objDeclJson obj).Whole := by
    intro obj hobj
    simp [objDeclJson, whole_optionJson (h.objs obj hobj)]
  have hmethods : ∀ method ∈ object.methods, (methodDeclJson method).Whole := by
    intro method hmethod
    exact whole_methodDeclJson (h.locals method hmethod) (h.bodies method hmethod)
  have hdat : ∀ entry ∈ object.dat, (datEntryJson entry).Whole := by
    intro entry hentry
    exact whole_datEntryJson (h.dat entry hentry)
  simpa [sourceObjectJson] using ⟨hconstants, hvars, hobjs, hmethods, hdat⟩

end Document

namespace Program

/-- The document of a program without floats has whole numbers only. -/
theorem whole_toJson {program : Program} (h : program.FloatFree) :
  program.toJson.Whole
  := by
  simpa [toJson] using fun object hobject => Document.whole_sourceObjectJson (h object hobject)

/-- The text of a program without floats is JSON for its document, and it is read as the program
if the document nests lists and objects at most 127 deep. -/
theorem render_reads_back {program : Program} (hfree : program.FloatFree)
    (hdepth : program.toJson.depth ≤ 127) :
  Json.parse? program.render = some program.toJson ∧ parse? program.render = some program
  := by
  have htext : Json.parse? program.render = some program.toJson :=
    Json.parse?_render (whole_toJson hfree)
  use htext
  rw [parse?, htext, Option.bind_some, ofJson?]
  exact Document.reads_program hfree Document.levelLimit le_rfl hdepth

/-- A program with numbers at the ends of their ranges, and with a quote, a control character
and characters of two to four bytes in its texts. -/
def unicodeProgram : Program where
  root := "größe.spin"
  objects := [{
    file := "größe.spin"
    constants := [{ name := { name := "Ω", pos := { line := 4294967295, column := 0 } }
                    value := .int {} (BitVec.ofInt 32 (-2147483648)) },
                  { name := { name := "最大" }, value := .int {} (BitVec.ofInt 32 2147483647) }]
    methods := [{ name := { name := "start" }, isPublic := true
                  body := [.exp {} (.string {} "\"\\\n\u0001€😀"),
                           .loop {} .forever [.quit {}]] }]
    dat := [.file {} [0, 255], .org {} (some (.register {} 255 (.one (.here {}))))] }]

/-- The program has no floats. -/
theorem unicodeProgram_floatFree :
  unicodeProgram.FloatFree
  := by
  have hint (w : Word) : (Exp.int {} w).FloatFree := ⟨nofun, nofun⟩
  have hstring (text : String) : (Exp.string {} text).FloatFree := ⟨nofun, nofun⟩
  have hhere : (Exp.here {}).FloatFree := ⟨nofun, nofun⟩
  have hregister : (Exp.register {} 255 (.one (.here {}))).FloatFree :=
    ⟨nofun, by simpa [Exp.parts, Bits.values] using hhere⟩
  have hquit : (Stmt.quit {}).FloatFree := ⟨nofun, nofun⟩
  have hloop : (Stmt.loop {} .forever [.quit {}]).FloatFree :=
    ⟨nofun, by simpa [Stmt.parts] using hquit⟩
  have hexp (text : String) : (Stmt.exp {} (.string {} text)).FloatFree :=
    ⟨by simpa [Stmt.exps] using hstring text, nofun⟩
  intro object hobject
  obtain rfl := List.mem_singleton.mp hobject
  constructor <;> simp [DatEntry.exps, hint, hexp, hloop, hregister]

/-- The program is read back from its text, through all of its characters. -/
theorem render_reads_back_unicode :
  unicodeProgram.FloatFree ∧ unicodeProgram.toJson.depth ≤ 127
    ∧ Json.parse? unicodeProgram.render = some unicodeProgram.toJson
    ∧ parse? unicodeProgram.render = some unicodeProgram
  := by
  have hdepth : unicodeProgram.toJson.depth ≤ 127 := by decide
  exact ⟨unicodeProgram_floatFree, hdepth, render_reads_back unicodeProgram_floatFree hdepth⟩

end Program

end SpinHub
