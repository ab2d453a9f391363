import Mathlib
import SpinHub.Proofs.KeyedBuilds
import SpinHub.Registration

/-!
# Registration by keys

Programs that are the same up to case register builds that are the same up to case. Files are found
by their keys, so the same files are read in the same order, and the same include is missing or
circular.
-/

namespace SpinHub

/-! ### Sources -/

namespace Object

/-- Sub-objects that are declared alike become symbols that are the same up to case, also in their
file names. -/
theorem subOf_alike {decl decl' : ObjDecl} (h : decl.keyed = decl'.keyed) :
  (subOf decl).keyed = (subOf decl').keyed
  := by
  have hname : decl.name.keyed = decl'.name.keyed := (congrArg ObjDecl.name h :)
  have hfile : nameKey decl.file.name = nameKey decl'.file.name := (congrArg (·.file.name) h :)
  have hpos : decl.file.pos = decl'.file.pos := (congrArg (·.file.pos) h :)
  have hcount : decl.count.map Exp.keyed = decl'.count.map Exp.keyed :=
    (congrArg ObjDecl.count h :)
  have hpointer : decl.pointer = decl'.pointer := (congrArg ObjDecl.pointer h :)
  simp only [subOf, SubObject.keyed, Ident.keyed, FileName.nameKey_normalize hfile, hpos, hcount,
    hpointer]
  simp only [Ident.keyed] at hname
  rw [hname]

/-- Declarations that are the same up to case become items that are. -/
theorem forall₂_of_decls {α β : Type} {keyed : α → α} {keyed' : β → β} {make : α → β}
    (hmake : ∀ a b, keyed a = keyed b → keyed' (make a) = keyed' (make b)) {decls decls' : List α}
    (h : decls.map keyed = decls'.map keyed) :
  List.Forall₂ (fun a b => keyed' a = keyed' b) (decls.map make) (decls'.map make)
  := by
  rw [List.forall₂_map_left_iff, List.forall₂_map_right_iff]
  exact (forall₂_of_map_eq h).imp hmake

/-- Files that are the same up to case declare objects that are. -/
theorem ofSource_alike {source source' : SourceObject} (h : source.keyed = source'.keyed) :
  SameOutcome (fun o o' => o.keyed = o'.keyed) (ofSource source) (ofSource source')
  := by
  have hfile : nameKey source.file = nameKey source'.file := (congrArg SourceObject.file h :)
  have hdat : source.dat.map DatEntry.keyed = source'.dat.map DatEntry.keyed :=
    (congrArg SourceObject.dat h :)
  have hcons : source.constants.map ConDecl.keyed = source'.constants.map ConDecl.keyed :=
    (congrArg SourceObject.constants h :)
  have hvars : source.vars.map VarDecl.keyed = source'.vars.map VarDecl.keyed :=
    (congrArg SourceObject.vars h :)
  have hobjs : source.objs.map ObjDecl.keyed = source'.objs.map ObjDecl.keyed :=
    (congrArg SourceObject.objs h :)
  have hmethods : source.methods.map MethodDecl.keyed = source'.methods.map MethodDecl.keyed :=
    (congrArg SourceObject.methods h :)
  have hempty : ({ file := FileName.normalize source.file, dat := source.dat } : Object).keyed
      = ({ file := FileName.normalize source'.file, dat := source'.dat } : Object).keyed := by
    simp only [keyed, FileName.nameKey_normalize hfile, hdat]
  have hallCons : List.Forall₂ (fun con con' : Con => con.keyed = con'.keyed)
      (builtinCons ++ source.constants.map conOf) (builtinCons ++ source'.constants.map conOf) := by
    apply List.rel_append
    · exact List.forall₂_same.mpr fun _ _ => rfl
    · exact forall₂_of_decls (fun _ _ hdecl => (congrArg conOf hdecl :)) hcons
  have hallVars : List.Forall₂ (fun var var' : Var => var.keyed = var'.keyed)
      (source.vars.map varOf) (source'.vars.map varOf) :=
    forall₂_of_decls (fun _ _ hdecl => (congrArg varOf hdecl :)) hvars
  have hallSubs := forall₂_of_decls (fun _ _ => subOf_alike) hobjs
  have hallMethods : List.Forall₂ (fun method method' : Method => method.keyed = method'.keyed)
      (source.methods.map methodOf) (source'.methods.map methodOf) :=
    forall₂_of_decls (fun _ _ hdecl => (congrArg methodOf hdecl :)) hmethods
  -- One run of declarations for each kind of symbol, each on what the runs before it left.
  apply declare_alike _ hempty
  apply Parallel.andThen (Parallel.forM hallCons fun _ _ => Declare.con_parallel)
  apply Parallel.andThen (Parallel.forM hallVars fun _ _ => Declare.var_parallel)
  apply Parallel.andThen (Parallel.forM hallSubs fun _ _ => Declare.sub_parallel)
  exact Parallel.forM hallMethods fun _ _ => Declare.method_parallel

end Object

/-! ### States -/

namespace Registration

/-- A state of registration with the keys of all names. -/
def keyed (state : Registration) : Registration :=
  { state with
    sources := state.sources.map SourceObject.keyed
    objects := state.objects.map Object.keyed }

/-- The states are the same up to case. -/
def Alike (state state' : Registration) : Prop := state.keyed = state'.keyed

/-- A file is found by key among the sources. -/
theorem source?_keyed (state : Registration) (file : String) :
  state.keyed.source? file = (state.source? file).map SourceObject.keyed
  := by
  simp only [source?, keyed, ← List.map_reverse, List.find?_map, Function.comp_def,
    SourceObject.keyed, FileName.key_nameKey]

theorem dropSource_keyed (state : Registration) (file : String) :
  (state.dropSource file).keyed = state.keyed.dropSource file
  := by
  simp only [dropSource, keyed, List.filter_map, Function.comp_def, SourceObject.keyed,
    FileName.key_nameKey]

theorem addObject_keyed (state : Registration) (object : Object) :
  (state.addObject object).keyed = state.keyed.addObject object.keyed
  := by
  simp only [addObject, keyed, List.map_append, List.map_singleton, List.length_map]

namespace Alike

variable {state state' : Registration} (h : state.Alike state')

include h

theorem objects :
  state.objects.map Object.keyed = state'.objects.map Object.keyed
  := (congrArg Registration.objects h :)

theorem object (id : ObjId) :
  (objectAt state.objects id).keyed = (objectAt state'.objects id).keyed
  := by
  rw [← objectAt_keyed, h.objects, objectAt_keyed]

/-- The number of a file does not depend on its spelling. -/
theorem fileId? {file file' : String} (hfile : nameKey file = nameKey file') :
  SpinHub.fileId? state.objects (FileName.key file)
    = SpinHub.fileId? state'.objects (FileName.key file')
  := by
  rw [← FileName.key_nameKey, hfile, FileName.key_nameKey, ← fileId?_keyed, h.objects,
    fileId?_keyed]

/-- A source is found in any spelling of its name. -/
theorem source? {file file' : String} (hfile : nameKey file = nameKey file') :
  (state.source? file).map SourceObject.keyed = (state'.source? file').map SourceObject.keyed
  := by
  have hkey : FileName.key file = FileName.key file' := by
    rw [← FileName.key_nameKey, hfile, FileName.key_nameKey]
  rw [← source?_keyed, h, Registration.source?, hkey, ← Registration.source?, source?_keyed]

theorem dropSource {file file' : String} (hfile : nameKey file = nameKey file') :
  (state.dropSource file).Alike (state'.dropSource file')
  := by
  have hkey : FileName.key file = FileName.key file' := by
    rw [← FileName.key_nameKey, hfile, FileName.key_nameKey]
  rw [Alike, dropSource_keyed, h, Registration.dropSource, hkey, ← Registration.dropSource,
    dropSource_keyed]

theorem addObject {object object' : Object} (hobject : object.keyed = object'.keyed) :
  (state.addObject object).Alike (state'.addObject object')
  := by
  rw [Alike, addObject_keyed, h, hobject, addObject_keyed]

theorem moveToEnd (id : ObjId) :
  (state.moveToEnd id).Alike (state'.moveToEnd id)
  := (congrArg (·.moveToEnd id) h :)

/-- A sub-object gets its target by number and place. -/
theorem setTarget (id : ObjId) (index : Nat) (target : ObjId) :
  (state.setTarget id index target).Alike (state'.setTarget id index target)
  := by
  have hmodified : (state.setTarget id index target).objects.map Object.keyed
      = (state'.setTarget id index target).objects.map Object.keyed := by
    apply map_modify_alike h.objects
    intro object object' hobject
    have hsubs : object.subs.map SubObject.keyed = object'.subs.map SubObject.keyed :=
      (congrArg Object.subs hobject :)
    have htargets : (object.subs.modify index fun sub => { sub with target }).map SubObject.keyed
        = (object'.subs.modify index fun sub => { sub with target }).map SubObject.keyed := by
      apply map_modify_alike hsubs
      intro sub sub' hsub
      exact (congrArg (fun (sub : SubObject) => { sub with target }) hsub :)
    exact (congrArg₂ (fun (object : Object) subs => { object with subs }) hobject htargets :)
  exact (congrArg₂ (fun (state : Registration) objects => { state with objects }) h hmodified :)

end Alike

end Registration

/-! ### Reading -/

namespace Registering

variable {α β : Type} {V : α → α → Prop} {W : β → β → Prop}

/-- From states that are the same up to case the readings end alike. -/
def Parallel (V : α → α → Prop) (x y : Registering α) : Prop :=
  ∀ state state', state.Alike state' →
    SameOutcome (fun r r' => V r.1 r'.1 ∧ r.2.Alike r'.2) (x.run state) (y.run state')

namespace Parallel

theorem pure {a b : α} (h : V a b) :
  Parallel V (pure a) (pure b)
  := fun _ _ hstate => .ok ⟨h, hstate⟩

theorem throw {f g : Fault} (h : f.sketch = g.sketch) :
  Parallel V (throw f) (throw g)
  := fun _ _ _ => .error h

/-- Readings that end alike may be made in turn. -/
theorem bind {x y : Registering α} {f g : α → Registering β} (hx : Parallel V x y)
    (hf : ∀ a b, V a b → Parallel W (f a) (g b)) :
  Parallel W (x >>= f) (y >>= g)
  := by
  intro state state' hstate
  rw [StateT.run_bind, StateT.run_bind]
  apply SameOutcome.bind (hx state state' hstate)
  rintro ⟨a, s⟩ ⟨b, s'⟩ ⟨hab, hs⟩
  exact hf a b hab s s' hs

theorem get :
  Parallel Registration.Alike get get
  := fun _ _ hstate => .ok ⟨hstate, hstate⟩

theorem set {state state' : Registration} (h : state.Alike state') :
  Parallel Eq (set state : Registering PUnit) (set state')
  := fun _ _ _ => .ok ⟨rfl, h⟩

theorem modify {f g : Registration → Registration} (h : ∀ s s', s.Alike s' → (f s).Alike (g s')) :
  Parallel Eq (modify f : Registering PUnit) (modify g)
  := fun _ _ hstate => .ok ⟨rfl, h _ _ hstate⟩

theorem liftM {e e' : Except Fault α} (h : SameOutcome V e e') :
  Parallel V (liftM e) (liftM e')
  := by
  intro state state' hstate
  cases h with
  | ok hab => exact .ok ⟨hab, hstate⟩
  | error hfg => exact .error hfg

/-- Failures are given the names of files that are the same up to case. -/
theorem inFile {file file' : String} (hfile : nameKey file = nameKey file') {x y : Registering α}
    (h : Parallel V x y) :
  Parallel V (inFile file x) (inFile file' y)
  := by
  intro state state' hstate
  have hrun := h state state' hstate
  change SameOutcome _ (tryCatch (x.run state) _) (tryCatch (y.run state') _)
  revert hrun
  generalize x.run state = result
  generalize y.run state' = result'
  rintro (hab | hfg)
  · exact .ok hab
  · exact .error (Fault.sketch_inFile hfg hfile)

theorem forM {ι : Type} {R : ι → ι → Prop} {f g : ι → Registering PUnit} {items items' : List ι}
    (hitems : List.Forall₂ R items items') (hf : ∀ i j, R i j → Parallel Eq (f i) (g j)) :
  Parallel Eq (items.forM f) (items'.forM g)
  := by
  induction hitems with
  | nil => exact pure rfl
  | cons hij _ ih => exact bind (hf _ _ hij) fun _ _ _ => ih

end Parallel

/-- A file that is named again is moved, or found to be circular, in any spelling. -/
theorem repeatObject_parallel {file file' : Ident} (hfile : file.keyed = file'.keyed) (id : ObjId) :
  Parallel Eq (repeatObject file id) (repeatObject file' id)
  := by
  have hpos : file.pos = file'.pos := (congrArg Ident.pos hfile :)
  apply Parallel.bind Parallel.get
  intro state state' hstate
  have hreading : state.reading = state'.reading := (congrArg Registration.reading hstate :)
  rw [hreading, hpos]
  split_ifs
  · exact Parallel.throw rfl
  · exact Parallel.set (hstate.moveToEnd id)

/-- A file is known in all spellings of its name or in none. -/
theorem again?_parallel {file file' : Ident} (hfile : file.keyed = file'.keyed) :
  Parallel Eq (again? file) (again? file')
  := by
  have hkey : nameKey file.name = nameKey file'.name := (congrArg Ident.name hfile :)
  apply Parallel.bind Parallel.get
  intro state state' hstate
  rw [hstate.fileId? hkey]
  cases fileId? state'.objects (FileName.key file'.name) with
  | none => exact Parallel.pure rfl
  | some id =>
    have hsubs : (objectAt state.objects id).subs.map SubObject.keyed
        = (objectAt state'.objects id).subs.map SubObject.keyed :=
      (congrArg Object.subs (hstate.object id) :)
    apply Parallel.bind (repeatObject_parallel hfile id)
    intro _ _ _
    refine Parallel.bind (Parallel.forM (forall₂_of_map_eq hsubs) ?_) ?_
    · intro sub sub' hsub
      have htarget : sub.target = sub'.target := (congrArg SubObject.target hsub :)
      rw [htarget]
      exact repeatObject_parallel hfile _
    · intro _ _ _
      exact Parallel.pure rfl

/-- A file that is missing is reported at one position, whatever its spelling. -/
theorem missing_parallel {file file' : Ident} (hfile : file.keyed = file'.keyed) :
  Parallel V (missing file) (missing file')
  := by
  have hpos : file.pos = file'.pos := (congrArg Ident.pos hfile :)
  have hsketch (name name' : String) :
      ({ cause := .missingObject name, pos := file'.pos } : Fault).sketch
        = ({ cause := .missingObject name', pos := file'.pos } : Fault).sketch := rfl
  rw [missing, missing, hpos]
  exact Parallel.throw (hsketch _ _)

/-- The files of sub-objects are read in turn in all spellings, by readers that end alike. -/
theorem readSubs_parallel {read read' : Ident → Registering ObjId}
    (hread : ∀ file file', file.keyed = file'.keyed → Parallel Eq (read file) (read' file'))
    (id : ObjId) {display display' : String} (hdisplay : nameKey display = nameKey display')
    {subs subs' : List SubObject} (hsubs : subs.map SubObject.keyed = subs'.map SubObject.keyed)
    (index : Nat) :
  Parallel Eq (readSubs read id display subs index) (readSubs read' id display' subs' index)
  := by
  have hall := forall₂_of_map_eq hsubs
  clear hsubs
  induction hall generalizing index with
  | nil => exact Parallel.pure rfl
  | cons hsub _ ih =>
    have hfile := (congrArg SubObject.file hsub :)
    apply Parallel.bind (Parallel.inFile hdisplay (hread _ _ hfile))
    rintro target _ rfl
    refine Parallel.bind (Parallel.modify fun _ _ h => h.setTarget id index target) ?_
    intro _ _ _
    exact ih _

/-- What follows when a file is found whose includes a reader reads. -/
def readSource (read : Ident → Registering ObjId) (file : Ident) (state : Registration)
    (source : SourceObject) : Registering ObjId := do
  let display := FileName.normalize source.file
  let object ← liftM ((Object.ofSource source).mapError (·.inFile display))
  let id := state.objects.length
  set ((state.dropSource file.name).addObject object)
  readSubs read id display object.subs 0
  if object.firstPublic?.isNone then
    throw { cause := .noPublicMethods display, pos := file.pos }
  else
    modify fun state => { state with reading := state.reading.drop 1 }
    return id

/-- Reading a file: it is known, or missing, or it is opened. -/
theorem read_succ (depth : Nat) (file : Ident) :
  read (depth + 1) file = (do
    match ← again? file with
    | some id => return id
    | none =>
      let state ← get
      match state.source? file.name with
      | none => missing file
      | some source => readSource (read depth) file state source)
  := by
  rw [read]
  rfl

/-- Sources that are the same up to case are opened alike. -/
theorem readSource_parallel {read read' : Ident → Registering ObjId}
    (hread : ∀ file file', file.keyed = file'.keyed → Parallel Eq (read file) (read' file'))
    {file file' : Ident} (hfile : file.keyed = file'.keyed) {state state' : Registration}
    (hstate : state.Alike state') {source source' : SourceObject}
    (hsource : source.keyed = source'.keyed) :
  Parallel Eq (readSource read file state source) (readSource read' file' state' source')
  := by
  have hkey : nameKey file.name = nameKey file'.name := (congrArg Ident.name hfile :)
  have hpos : file.pos = file'.pos := (congrArg Ident.pos hfile :)
  have hname : nameKey source.file = nameKey source'.file :=
    (congrArg SourceObject.file hsource :)
  have hdisplay := FileName.nameKey_normalize hname
  have hobjects := (Object.ofSource_alike hsource).inFile hdisplay
  rw [readSource, readSource, length_of_map_eq hstate.objects, hpos]
  -- The displayed names are long terms that are of no use here beyond their keys.
  generalize FileName.normalize source.file = display at hdisplay hobjects ⊢
  generalize FileName.normalize source'.file = display' at hdisplay hobjects ⊢
  apply Parallel.bind (Parallel.liftM hobjects)
  intro object object' hobject
  have hsubs : object.subs.map SubObject.keyed = object'.subs.map SubObject.keyed :=
    (congrArg Object.subs hobject :)
  have hpublic : object.firstPublic?.isNone = object'.firstPublic?.isNone := by
    have hfirst := congrArg (·.firstPublic?.isNone) hobject
    simpa only [Object.firstPublic?_keyed, Option.isNone_map] using hfirst
  rw [hpublic]
  refine Parallel.bind (Parallel.set ((hstate.dropSource hkey).addObject hobject)) ?_
  intro _ _ _
  apply Parallel.bind (readSubs_parallel hread _ hdisplay hsubs 0)
  intro _ _ _
  split_ifs
  · exact Parallel.throw rfl
  · refine Parallel.bind (Parallel.modify ?_) fun _ _ _ => Parallel.pure rfl
    intro s s' hs
    exact (congrArg (fun (s : Registration) => { s with reading := s.reading.drop 1 }) hs :)

/-- Files that are the same up to case are read alike. -/
theorem read_parallel (depth : Nat) {file file' : Ident} (hfile : file.keyed = file'.keyed) :
  Parallel Eq (read depth file) (read depth file')
  := by
  induction depth generalizing file file' with
  | zero =>
    apply Parallel.bind (again?_parallel hfile)
    rintro found _ rfl
    cases found with
    | some id => exact Parallel.pure rfl
    | none => exact missing_parallel hfile
  | succ depth ih =>
    rw [read_succ, read_succ]
    apply Parallel.bind (again?_parallel hfile)
    rintro found _ rfl
    cases found with
    | some id => exact Parallel.pure rfl
    | none =>
      apply Parallel.bind Parallel.get
      intro state state' hstate
      have hsource := hstate.source? (congrArg Ident.name hfile :)
      revert hsource
      generalize state.source? file.name = source
      generalize state'.source? file'.name = source'
      intro hsource
      cases optionRel_of_map_eq hsource with
      | none => exact missing_parallel hfile
      | some hfound => exact readSource_parallel (fun _ _ => ih) hfile hstate hfound

end Registering

/-- Programs that are the same up to case register builds that are. -/
theorem Program.register_alike {p q : Program} (h : p.keyed = q.keyed) :
  SameOutcome Build.Respelled p.register q.register
  := by
  have hroot : nameKey p.root = nameKey q.root := (congrArg Program.root h :)
  have hsources : p.objects.map SourceObject.keyed = q.objects.map SourceObject.keyed :=
    (congrArg Program.objects h :)
  have hstart : Registration.Alike { sources := p.objects } { sources := q.objects } := by
    simp only [Registration.Alike, Registration.keyed, hsources]
  have hfile : Ident.keyed { name := p.root } = Ident.keyed { name := q.root } := by
    simp only [Ident.keyed, hroot]
  rw [register, register, length_of_map_eq hsources]
  apply SameOutcome.bind (Registering.read_parallel q.objects.length hfile _ _ hstart)
  rintro ⟨id, state⟩ ⟨id', state'⟩ ⟨_, hstate⟩
  have horder : state.order = state'.order := (congrArg Registration.order hstate :)
  apply SameOutcome.ok
  simp only [Build.Respelled, Build.keyed, hstate.objects, horder]

end SpinHub
