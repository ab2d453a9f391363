import Mathlib
import SpinHub.Image
import SpinHub.Layout.Variables
import SpinHub.Proofs.DatPasses

/-!
# Steady steps

A phase may fail half way, and what it has changed by then stays. So a relation between the build
that a phase starts from and the one that it leaves has to hold however the phase ends. It does if
every single change of an object keeps to it, as nothing else that phases do to a build is more
than a remark or an evaluated constant.
-/

namespace SpinHub

variable {α β γ : Type}

/-- A relation of builds that remarks and evaluated constants keep to. -/
structure Build.Tolerant (R : Build → Build → Prop) : Prop where
  refl : ∀ b, R b b
  trans : ∀ {a b c}, R a b → R b c → R a c
  memo : ∀ b memo, R b { b with memo }
  warn : ∀ b id pos text, R b (b.warn id pos text)

/-- A relation of builds that every change of object `id` keeps to that leaves alone what `p` reads
of it. -/
def Build.Admits (R : Build → Build → Prop) (id : ObjId) (p : Object → γ) : Prop :=
  ∀ b f, p (f (b.object id)) = p (b.object id) → R b (b.modifyObject id f)

/-- What leaves more alone is admitted too. -/
theorem Build.Admits.of_comp {R : Build → Build → Prop} {id : ObjId} {p : Object → γ} (g : γ → α)
    (h : Admits R id fun object => g (p object)) :
  Admits R id p
  := fun b f hf => h b f (congrArg g hf)

namespace Step

/-- However the step ends, the build that it leaves is related to the one it started from. -/
def Steady (R : Build → Build → Prop) (action : Step α) : Prop :=
  ∀ s, R s (action.run.run s).2

namespace Steady

variable {R : Build → Build → Prop}

/-- A steady step that succeeds leads to a related build. -/
theorem yields {action : Step α} {a : α} {s s' : Build} (h : Steady R action)
    (hs : Yields action s a s') :
  R s s'
  := by
  have hrun := h s
  rwa [hs] at hrun

/-- A steady step that fails leaves a related build. -/
theorem fails {action : Step α} {fault : Fault} {s s' : Build} (h : Steady R action)
    (hs : Fails action s fault s') :
  R s s'
  := by
  have hrun := h s
  rwa [hs] at hrun

variable (hR : Build.Tolerant R)

include hR

theorem pure (a : α) :
  Steady R (pure a)
  := fun s => hR.refl s

theorem failAt (pos : Pos) (cause : Cause) :
  Steady R (failAt pos cause : Step α)
  := fun s => hR.refl s

theorem liftM (e : Except Fault α) :
  Steady R (liftM e)
  := by
  intro s
  cases e with
  | error fault => apply hR.refl
  | ok a => apply hR.refl

theorem liftAt (pos : Pos) (e : Except Cause α) :
  Steady R (liftAt pos e)
  := by
  cases e with
  | error cause => apply failAt hR
  | ok a => apply pure hR

theorem get :
  Steady R get
  := fun s => hR.refl s

theorem object (id : ObjId) :
  Steady R (object id)
  := fun s => hR.refl s

theorem warn (id : ObjId) (pos : Pos) (text : String) :
  Steady R (warn id pos text)
  := fun s => hR.warn s id pos text

/-- An evaluation changes the memo, which does not matter. -/
theorem evaluate (action : Eval α) :
  Steady R (evaluate action)
  := fun s => hR.memo s _

theorem evaluateIn (id : ObjId) (action : Site → Eval α) :
  Steady R (evaluateIn id action)
  := fun s => hR.memo s _

/-- What follows a step starts from what the step yields. -/
theorem run_bind_of_yields {x : Step α} {f : α → Step β} {s : Build} (hx : R s (x.run.run s).2)
    (hf : ∀ a m, Yields x s a m → R m ((f a).run.run m).2) :
  R s ((x >>= f).run.run s).2
  := by
  rw [run_bind]
  rcases hrun : x.run.run s with ⟨fault | a, m⟩
  · rw [hrun] at hx
    exact hx
  · rw [hrun] at hx
    apply hR.trans hx (hf a m hrun)

/-- Steady steps in turn are steady, wherever the run ends. -/
theorem bind {x : Step α} {f : α → Step β} (hx : Steady R x) (hf : ∀ a, Steady R (f a)) :
  Steady R (x >>= f)
  := fun s => run_bind_of_yields hR (hx s) fun a m _ => hf a m

theorem map {x : Step α} {f : α → β} (hx : Steady R x) :
  Steady R (f <$> x)
  := by
  rw [map_eq_pure_bind]
  apply bind hR hx
  intro a
  apply pure hR

omit hR in
theorem inFile {file : String} {action : Step α} (h : Steady R action) :
  Steady R (inFile file action)
  := by
  intro s
  have hrun := h s
  rw [run_inFile]
  rcases hs : action.run.run s with ⟨fault | a, m⟩
  · rw [hs] at hrun
    exact hrun
  · rw [hs] at hrun
    exact hrun

/-- Naming the file of failures changes no build. -/
theorem inObject {id : ObjId} {action : Step α} (h : Steady R action) :
  Steady R (inObject id action)
  := by
  apply bind hR (object hR id)
  intro object
  apply inFile h

/-- A step that is steady for each item is so for all in turn. -/
theorem mapM {f : α → Step β} (items : List α) (h : ∀ item ∈ items, Steady R (f item)) :
  Steady R (items.mapM f)
  := by
  induction items with
  | nil => apply pure hR
  | cons item items ih =>
    rw [List.mapM_cons]
    apply bind hR (h item List.mem_cons_self)
    intro b
    apply bind hR (ih fun other hother => h other (List.mem_cons_of_mem item hother))
    intro bs
    apply pure hR

/-- A step that is steady for each item is so for all in turn, without results. -/
theorem forM {f : α → Step PUnit} (items : List α) (h : ∀ item ∈ items, Steady R (f item)) :
  Steady R (items.forM f)
  := by
  induction items with
  | nil => apply pure hR
  | cons item items ih =>
    apply bind hR (h item List.mem_cons_self)
    intro _
    apply ih fun other hother => h other (List.mem_cons_of_mem item hother)

end Steady

section Place

variable {R : Build → Build → Prop} (hR : Build.Tolerant R) {id : ObjId}

include hR

/-! ### Walking over entries -/

theorem operandOr_steady (cursor : Cursor) (default : Int) (e : Option Exp) :
  Steady R (operandOr id cursor default e)
  := by
  apply Steady.evaluateIn hR

theorem remark_steady (pass : Pass) (pos : Pos) (text : String) :
  Steady R (remark pass id pos text)
  := by
  cases pass with
  | measure => apply Steady.warn hR
  | write => apply Steady.pure hR

theorem remarkAfterRes_steady (pass : Pass) (cursor : Cursor) (pos : Pos) (text : String) :
  Steady R (remarkAfterRes pass id cursor pos text)
  := by
  unfold remarkAfterRes
  split_ifs
  · apply remark_steady hR
  · apply Steady.pure hR

theorem dataCount_steady (cursor : Cursor) (item : DatData) :
  Steady R (dataCount id cursor item)
  := by
  apply Steady.bind hR (operandOr_steady hR _ _ _)
  intro count
  split_ifs
  · apply Steady.failAt hR
  · apply Steady.pure hR

/-- Walking over an entry changes no object. -/
theorem place_steady (config : Config) (pass : Pass) (cursor : Cursor) (entry : DatEntry) :
  Steady R (place config pass id cursor entry)
  := by
  -- moving the cursor, as most entries do in the end, changes nothing
  have moves {e : Except Fault Cursor} {f : Cursor → Placed} :
      Steady R (do return f (← liftM e) : Step Placed) :=
    Steady.bind hR (Steady.liftM hR e) fun _ => Steady.pure hR _
  cases entry with
  | label name alignment => apply Steady.pure hR
  | org pos origin =>
    apply Steady.bind hR (operandOr_steady hR _ _ _)
    intro origin
    apply moves
  | orgx pos => apply Steady.pure hR
  | instruction instruction =>
    rw [place]
    apply Steady.bind hR (remarkAfterRes_steady hR _ _ _ _)
    intro _
    dsimp only
    split
    · apply Steady.bind hR (remark_steady hR _ _ _)
      intro _
      apply moves
    · apply moves
  | res pos count =>
    apply Steady.bind hR (operandOr_steady hR _ _ _)
    intro count
    apply moves
  | fit pos limit =>
    rw [place]
    split_ifs
    · apply Steady.pure hR
    · apply Steady.bind hR (operandOr_steady hR _ _ _)
      intro limit
      dsimp only
      split_ifs
      · apply Steady.failAt hR
      · apply Steady.pure hR
  | file pos bytes =>
    apply Steady.bind hR (remarkAfterRes_steady hR _ _ _ _)
    intro _
    apply moves
  | data item =>
    rw [place]
    dsimp only
    split_ifs
    · apply Steady.failAt hR
    · apply Steady.bind hR (remarkAfterRes_steady hR _ _ _ _)
      intro _
      apply Steady.bind hR (dataCount_steady hR _ _)
      intro count
      apply moves
    · apply Steady.failAt hR

end Place

end Step

/-- An object without what writing its DAT section changes. -/
def Object.unwritten (object : Object) : Object :=
  { object with latestLabel := "", datBytes := [] }

/-- An object without what measuring its DAT section changes. -/
def Object.unmeasured (object : Object) : Object :=
  { object.unwritten with names := [], labels := [] }

/-- Passing a label changes only what writing the DAT section may change. -/
theorem Object.unwritten_passLabel (object : Object) (name : String) :
  (object.passLabel name).unwritten = object.unwritten
  := by
  unfold Object.passLabel
  split_ifs <;> rfl

/-- A label that is declared is all that changes. -/
theorem Object.unmeasured_declare {object object' : Object} {key : String} {label : Label}
    (h : object.declare (.label key label) = .ok object') (name : String) :
  (object'.passLabel name).unmeasured = object.unmeasured
  := by
  obtain ⟨_, rfl⟩ := declare_label_eq h
  rw [unmeasured, unwritten_passLabel]
  rfl

/-- A relation that leaves alone what measuring changes admits a declared label. -/
theorem Build.Admits.declared {R : Build → Build → Prop} {id : ObjId}
    (hid : Admits R id Object.unmeasured) (b : Build) {key : String} {label : Label}
    {object : Object} (hadd : (b.object id).declare (.label key label) = .ok object)
    (name : String) :
  R b (b.modifyObject id fun _ => object.passLabel name)
  := hid b _ (Object.unmeasured_declare hadd name)

namespace Step

variable {R : Build → Build → Prop} (hR : Build.Tolerant R) {id : ObjId}

include hR

/-! ### Measuring -/

omit hR in
theorem clearLatest_steady (hid : Build.Admits R id Object.unwritten) :
  Steady R (clearLatest id)
  := fun s => hid s _ rfl

section Measure

variable (hdeclared : ∀ b {key label object},
  (b.object id).declare (.label key label) = .ok object →
  ∀ name, R b (b.modifyObject id fun _ => object.passLabel name))

include hdeclared

/-- Declaring a label is steady: it changes nothing, or all of it. -/
theorem declareLabel_steady (start : Cursor) (name : Ident) :
  Steady R (declareLabel id start name)
  := by
  intro s
  rw [run_declareLabel]
  cases hadd : (s.object id).declare (.label ((s.object id).key name.name) (start.label name)) with
  | error fault => apply hR.refl
  | ok object => apply hdeclared s hadd

/-- Measuring an entry is steady if declared labels are admitted. -/
theorem measureEntry_steady (config : Config) (cursor : Cursor) (entry : DatEntry) :
  Steady R (measureEntry config id cursor entry)
  := by
  apply Steady.bind hR (place_steady hR config .measure cursor entry)
  intro placed
  cases entry with
  | label name alignment =>
    apply Steady.bind hR (declareLabel_steady hR hdeclared placed.start name)
    intro _
    apply Steady.pure hR
  | _ => apply Steady.pure hR

/-- Measuring entries one behind the other is steady. -/
theorem measureFrom_steady (config : Config) (cursor : Cursor) (entries : List DatEntry) :
  Steady R (measureFrom config id cursor entries)
  := by
  induction entries generalizing cursor with
  | nil => apply Steady.pure hR
  | cons entry rest ih =>
    rw [measureFrom_cons]
    apply Steady.bind hR (measureEntry_steady hR hdeclared config cursor entry) ih

/-- Beside the labels that it declares, measuring changes what writing changes. -/
theorem measureDat_steady_of_declared (hid : Build.Admits R id Object.unwritten)
    (config : Config) :
  Steady R (measureDat config id)
  := by
  apply Steady.inObject hR
  apply Steady.bind hR (clearLatest_steady hid)
  intro _
  apply Steady.bind hR (Steady.object hR id)
  intro object
  apply Steady.bind hR (measureFrom_steady hR hdeclared config _ _)
  intro cursor s
  apply hid s
  rfl

end Measure

/-- Measuring a DAT section is steady. -/
theorem measureDat_steady (hid : Build.Admits R id Object.unmeasured) (config : Config) :
  Steady R (measureDat config id)
  := by
  have hlatest : Build.Admits R id Object.unwritten :=
    .of_comp (fun object : Object => { object with names := [], labels := [] }) hid
  apply measureDat_steady_of_declared hR hid.declared hlatest

/-! ### Writing -/

section Write

variable (hid : Build.Admits R id Object.unwritten)

include hid

/-- Checking a label only passes it. -/
theorem checkLabel_steady (start : Cursor) (name : Ident) :
  Steady R (checkLabel id start name)
  := by
  apply Steady.bind hR (Steady.object hR id)
  intro object
  cases object.labelOf? name.name with
  | none => apply Steady.failAt hR
  | some label =>
    dsimp only
    split_ifs
    · apply Steady.failAt hR
    · intro s
      apply hid s
      apply Object.unwritten_passLabel

omit hid in
/-- Writing data evaluates it and may leave a remark. -/
theorem dataBytes_steady (placed : Placed) (data : DatData) :
  Steady R (dataBytes id placed data)
  := by
  apply Steady.bind hR (Steady.evaluateIn hR id _)
  intro value
  split_ifs
  · apply Steady.failAt hR
  · apply Steady.bind hR (Steady.warn hR id _ _)
    intro _
    apply Steady.pure hR
  · apply Steady.pure hR

/-- Writing an entry is steady. -/
theorem payload_steady (placed : Placed) (entry : DatEntry) :
  Steady R (payload id placed entry)
  := by
  cases entry with
  | label name alignment =>
    apply Steady.bind hR (checkLabel_steady hR hid placed.start name)
    intro _
    apply Steady.pure hR
  | instruction instruction =>
    apply Steady.bind hR (Steady.evaluateIn hR id _)
    intro word
    apply Steady.pure hR
  | data item => apply dataBytes_steady hR
  | _ => apply Steady.pure hR

/-- Writing entries one behind the other is steady. -/
theorem writeFrom_steady (config : Config) (base : Nat) (cursor : Cursor) (block : Bytes)
    (entries : List DatEntry) :
  Steady R (writeFrom config id base cursor block entries)
  := by
  induction entries generalizing cursor block with
  | nil => apply Steady.pure hR
  | cons entry rest ih =>
    apply Steady.bind hR (place_steady hR config .write cursor entry)
    intro placed
    apply Steady.bind hR (payload_steady hR hid placed entry)
    intro bytes
    apply ih

/-- Writing a DAT section is steady. -/
theorem writeDat_steady (config : Config) :
  Steady R (writeDat config id)
  := by
  apply Steady.inObject hR
  apply Steady.bind hR (clearLatest_steady hid)
  intro _
  apply Steady.bind hR (Steady.object hR id)
  intro object
  apply Steady.bind hR (writeFrom_steady hR hid config _ _ _ _)
  intro bytes s
  apply hid s
  rfl

end Write

/-! ### Variables and settings -/

/-- Variables are laid out with extents for all of them. -/
theorem placeVars_steady_of_length (hid : ∀ b extents,
      extents.length = (b.object id).vars.length → R b (b.modifyObject id (·.withVars extents))) :
  Steady R (placeVars id)
  := by
  intro s
  rw [placeVars, run_object_bind]
  apply Steady.run_bind_of_yields hR (Steady.evaluateIn hR id _ s)
  intro extents m hextents
  obtain ⟨memo, hmeasure, rfl⟩ := yields_evaluateIn.mp hextents
  apply hid
  apply length_of_mapM hmeasure

/-- Laying out variables is steady if the layout is admitted. -/
theorem placeVars_steady (hid : ∀ b extents, R b (b.modifyObject id (·.withVars extents))) :
  Steady R (placeVars id)
  := placeVars_steady_of_length hR fun b extents _ => hid b extents

/-- Adding up the reserved bytes evaluates constants only. -/
theorem reserved_steady :
  Steady R reserved
  := by
  apply Steady.bind hR (Steady.get hR)
  intro build
  apply Steady.bind hR (Steady.mapM hR _ fun id _ => Steady.evaluateIn hR id _)
  intro asked
  apply Steady.pure hR

/-- Finding the clock evaluates constants only. -/
theorem clock_steady :
  Steady R clock
  := by
  apply Steady.bind hR (Steady.get hR)
  intro build
  apply Steady.bind hR (Steady.evaluate hR _)
  intro frequency
  apply Steady.bind hR (Steady.evaluate hR _)
  intro xin
  apply Steady.bind hR (Steady.evaluate hR _)
  intro mode
  apply Steady.inFile (Steady.liftM hR _)

end Step

end SpinHub
