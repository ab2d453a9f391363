import Mathlib
import SpinHub.Code.Method
import SpinHub.Layout.Slots
import SpinHub.Layout.Variables
import SpinHub.Proofs.KeyedStatements

/-!
# Builds by their keys

Two builds are the same up to case if they are the same once their names are keyed. The phases that
place the slots, the variables and the methods of an object run in parallel on such builds: a phase
reads the numbers of an object, which are the same, and evaluates expressions, which have the same
values.
-/

namespace SpinHub

/-! ### Builds -/

/-- A remark with the key of its file. -/
def Warning.keyed (warning : Warning) : Warning := { warning with file := nameKey warning.file }

namespace Build

/-- A build with the keys of its names. -/
def keyed (build : Build) : Build :=
  { build with
    objects := build.objects.map Object.keyed
    warnings := build.warnings.map Warning.keyed }

/-- The builds are the same up to case. -/
def Respelled (build build' : Build) : Prop := build.keyed = build'.keyed

namespace Respelled

variable {build build' : Build} (h : build.Respelled build')

include h

theorem objects :
  build.objects.map Object.keyed = build'.objects.map Object.keyed
  := (congrArg Build.objects h :)

theorem order :
  build.order = build'.order
  := (congrArg Build.order h :)

theorem memo :
  build.memo = build'.memo
  := (congrArg Build.memo h :)

/-- The objects of one number are the same up to case. -/
theorem object (id : ObjId) :
  (build.object id).keyed = (build'.object id).keyed
  := by
  rw [Build.object, ← objectAt_keyed, h.objects, objectAt_keyed, Build.object]

theorem file (id : ObjId) :
  nameKey (build.object id).file = nameKey (build'.object id).file
  := (congrArg Object.file (h.object id) :)

/-- Sites in objects of one number are alike. -/
theorem site (id : ObjId) :
  (build.site id).Alike (build'.site id)
  := by
  simp only [Site.Alike, Site.keyed, Build.site, h.objects]

end Respelled

end Build

/-- Items that are the same by keys stay so when the items at one place change alike. -/
theorem map_modify_alike {α β : Type} {key : α → β} {items items' : List α}
    (h : items.map key = items'.map key) {f g : α → α}
    (hf : ∀ a b, key a = key b → key (f a) = key (g b)) (i : Nat) :
  (items.modify i f).map key = (items'.modify i g).map key
  := by
  apply List.ext_getElem?
  intro j
  have hj := congrArg (·[j]?) h
  simp only [List.getElem?_map] at hj
  simp only [List.getElem?_map, List.getElem?_modify]
  revert hj
  generalize items[j]? = item
  generalize items'[j]? = item'
  intro hj
  cases optionRel_of_map_eq hj with
  | none => rfl
  | @some a b hab =>
    simp only [Option.map_some, Option.map_eq_map, Option.some_inj]
    split_ifs
    · exact hf a b hab
    · exact hab

namespace Build.Respelled

variable {build build' : Build} (h : build.Respelled build')

include h

/-- Changes that lead from objects to objects that are the same up to case keep builds so. -/
theorem modifyObject (id : ObjId) {f g : Object → Object}
    (hf : ∀ object object', object.keyed = object'.keyed → (f object).keyed = (g object').keyed) :
  (build.modifyObject id f).Respelled (build'.modifyObject id g)
  := by
  have hobjects := map_modify_alike h.objects hf id
  have hwarnings : build.warnings.map Warning.keyed = build'.warnings.map Warning.keyed :=
    (congrArg Build.warnings h :)
  have htotals : build.totals = build'.totals := (congrArg Build.totals h :)
  simp only [Respelled, keyed, Build.modifyObject, hobjects, hwarnings, h.order, h.memo, htotals]

/-- A remark is added in both builds, about files that are the same up to case. -/
theorem warn (id : ObjId) (pos : Pos) (text : String) :
  (build.warn id pos text).Respelled (build'.warn id pos text)
  := by
  have hwarnings : build.warnings.map Warning.keyed = build'.warnings.map Warning.keyed :=
    (congrArg Build.warnings h :)
  have htotals : build.totals = build'.totals := (congrArg Build.totals h :)
  simp only [Respelled, keyed, Build.warn, List.map_append, List.map_cons, List.map_nil,
    Warning.keyed, h.objects, hwarnings, h.file, h.order, h.memo, htotals]

end Build.Respelled

/-! ### Steps -/

namespace Step

variable {α : Type} {V : α → α → Prop}

/-- On builds that are the same up to case the step ends alike, with the same result. -/
def IgnoresCase (x : Step α) : Prop := Parallel Build.Respelled Eq x x

/-- Steps that ignore case may be taken in turn. -/
theorem IgnoresCase.forM {ι : Type} (items : List ι) {f : ι → Step Unit}
    (hf : ∀ i, IgnoresCase (f i)) :
  IgnoresCase (items.forM f)
  := by
  apply Parallel.forM (List.forall₂_same.mpr fun _ _ => rfl)
  rintro i _ rfl
  exact hf i

/-- Steps that ignore case give the same results in turn. -/
theorem IgnoresCase.mapM {ι : Type} (items : List ι) {f : ι → Step α}
    (hf : ∀ i, IgnoresCase (f i)) :
  IgnoresCase (items.mapM f)
  := by
  apply Parallel.mapM_eq (List.forall₂_same.mpr fun _ _ => rfl)
  rintro i _ rfl
  exact hf i

/-- What is read of an object is the same up to case. -/
theorem object_parallel (id : ObjId) :
  Parallel Build.Respelled (fun object object' => object.keyed = object'.keyed) (object id)
    (object id)
  := fun _ _ h => ⟨.ok (h.object id), h⟩

/-- A change that keeps objects the same up to case runs in parallel with its like. -/
theorem modifyObject_parallel (id : ObjId) {f g : Object → Object}
    (hf : ∀ object object', object.keyed = object'.keyed → (f object).keyed = (g object').keyed) :
  Parallel Build.Respelled Eq (modifyObject id f) (modifyObject id g)
  := Parallel.modify fun _ _ h => h.modifyObject id hf

/-- A change that pays no heed to names runs in parallel with itself. -/
theorem modifyObject_ignoresCase (id : ObjId) {f : Object → Object}
    (hf : ∀ object, (f object).keyed = f object.keyed) :
  IgnoresCase (modifyObject id f)
  := by
  apply modifyObject_parallel
  intro object object' hobject
  rw [hf, hobject, hf]

theorem warn_ignoresCase (id : ObjId) (pos : Pos) (text : String) :
  IgnoresCase (warn id pos text)
  := Parallel.modify fun _ _ h => h.warn id pos text

/-- Evaluations that end alike on one memo end alike in builds that are the same up to case. -/
theorem evaluate_parallel {x y : Eval α} (hxy : Parallel Eq V x y) :
  Parallel Build.Respelled V (evaluate x) (evaluate y)
  := by
  intro build build' h
  obtain ⟨hresult, hmemo⟩ := hxy build.memo build'.memo h.memo
  exact ⟨hresult, (congrArg₂ (fun (build : Build) memo => { build with memo }) h hmemo :)⟩

/-- An evaluation that ends alike at sites that are alike may be made in any object. -/
theorem evaluateIn_parallel (id : ObjId) {x y : Site → Eval α}
    (hxy : ∀ site site', site.Alike site' → Parallel Eq V (x site) (y site')) :
  Parallel Build.Respelled V (evaluateIn id x) (evaluateIn id y)
  := by
  apply Parallel.bind Parallel.get
  intro build build' h
  exact evaluate_parallel (hxy _ _ (h.site id))

/-- Failures are given the names of files that are the same up to case. -/
theorem inObject_parallel (id : ObjId) {x y : Step α} (hxy : Parallel Build.Respelled V x y) :
  Parallel Build.Respelled V (inObject id x) (inObject id y)
  := by
  apply Parallel.bind (object_parallel id)
  intro object object' hobject
  exact Parallel.inFile (congrArg Object.file hobject :) hxy

end Step

/-! ### Symbols -/

/-- Lists with the same keys are of one length. -/
theorem length_of_map_eq {α β : Type} {key : α → β} {items items' : List α}
    (h : items.map key = items'.map key) :
  items.length = items'.length
  := by
  simpa only [List.length_map] using congrArg List.length h

/-- Lists with the same keys keep them if items with one key are appended. -/
theorem map_append_alike {α β : Type} {key : α → β} {items items' : List α}
    (h : items.map key = items'.map key) {a a' : α} (ha : key a = key a') :
  (items ++ [a]).map key = (items' ++ [a']).map key
  := by
  rw [List.map_append, h, List.map_singleton, ha, List.map_append, List.map_singleton]

namespace Object

/-- The first public method is found by its place, whatever the spelling. -/
theorem firstPublic?_keyed (object : Object) :
  object.keyed.firstPublic? = object.firstPublic?.map Method.keyed
  := by
  simp only [firstPublic?, keyed, List.find?_map]
  rfl

variable {object object' : Object} (h : object.keyed = object'.keyed)

include h

theorem length_methods_of_keyed :
  object.methods.length = object'.methods.length
  := length_of_map_eq (congrArg Object.methods h :)

/-- Symbols are found by key, so objects that are the same up to case find the same. -/
theorem find?_of_keyed (key : String) :
  object.find? key = object'.find? key
  := (congrArg (·.find? key) h :)

/-- The key of a name is the same in all spellings, also that of a local label. -/
theorem key_alike {name name' : String} (hname : nameKey name = nameKey name') :
  object.key name = object'.key name'
  := by
  rw [← key_keyed, h, hname, key_keyed]

end Object

namespace Declare

/-- On objects that are the same up to case the declarations end alike, and leave such objects. -/
abbrev Alike (x y : Declare Unit) : Prop :=
  Parallel (fun o o' : Object => o.keyed = o'.keyed) Eq x y

/-- A name is entered, or found taken, whatever its case. -/
theorem enter_parallel (key : String) {name name' : Ident} (hname : name.keyed = name'.keyed)
    (ref : SymbolRef) :
  Alike (enter key name ref) (enter key name' ref)
  := by
  have hpos : name.pos = name'.pos := (congrArg Ident.pos hname :)
  apply Parallel.bind Parallel.get
  intro object object' h
  rw [Object.find?_of_keyed h, hpos]
  cases object'.find? key with
  | some found => exact Parallel.throw rfl
  | none =>
    apply Parallel.modify
    intro o o' ho
    have hnames : o.names = o'.names := (congrArg Object.names ho :)
    rw [hnames]
    exact (congrArg (fun o : Object => { o with names := o'.names ++ [(key, ref)] }) ho :)

/-- Symbols that are the same up to case are declared alike. The list of their kind is what `list`
reads and `put` replaces. -/
theorem symbol_parallel {α : Type} {keyed : α → α} (list : Object → List α)
    (put : Object → List α → Object) (hlist : ∀ o, list o.keyed = (list o).map keyed)
    (hput : ∀ o items, (put o items).keyed = put o.keyed (items.map keyed)) {key key' : String}
    (hkey : key = key') {name name' : Ident} (hname : name.keyed = name'.keyed)
    (ref : Nat → SymbolRef) {item item' : α} (hitem : keyed item = keyed item') :
  Alike
    (symbol key name (fun o => ref (list o).length) fun o => put o (list o ++ [item]))
    (symbol key' name' (fun o => ref (list o).length) fun o => put o (list o ++ [item']))
  := by
  have hlists (o o' : Object) (ho : o.keyed = o'.keyed) :
      (list o).map keyed = (list o').map keyed := by
    rw [← hlist, ho, hlist]
  rw [hkey]
  apply Parallel.bind Parallel.get
  intro object object' h
  dsimp only
  rw [length_of_map_eq (hlists _ _ h)]
  apply Parallel.andThen (enter_parallel key' hname _)
  apply Parallel.modify
  intro o o' ho
  rw [hput, hput, ho, map_append_alike (hlists o o' ho) hitem]

/-- Labels that are the same up to case are declared alike, under a key that is given. -/
theorem label_parallel (key : String) {l l' : Label} (h : l.keyed = l'.keyed) :
  Alike (label key l) (label key l')
  := symbol_parallel Object.labels (fun o labels => { o with labels }) (fun _ => rfl)
    (fun _ _ => rfl) rfl (congrArg Label.name h :) .label h

theorem con_parallel {c c' : Con} (h : c.keyed = c'.keyed) :
  Alike (con c) (con c')
  := symbol_parallel Object.cons (fun o cons => { o with cons }) (fun _ => rfl)
    (fun _ _ => rfl) (congrArg (·.name.name) h :) (congrArg Con.name h :) .con h

theorem var_parallel {v v' : Var} (h : v.keyed = v'.keyed) :
  Alike (var v) (var v')
  := symbol_parallel Object.vars (fun o vars => { o with vars }) (fun _ => rfl)
    (fun _ _ => rfl) (congrArg (·.name.name) h :) (congrArg Var.name h :) .var h

theorem sub_parallel {s s' : SubObject} (h : s.keyed = s'.keyed) :
  Alike (sub s) (sub s')
  := symbol_parallel Object.subs (fun o subs => { o with subs }) (fun _ => rfl)
    (fun _ _ => rfl) (congrArg (·.name.name) h :) (congrArg SubObject.name h :) .sub h

theorem method_parallel {m m' : Method} (h : m.keyed = m'.keyed) :
  Alike (method m) (method m')
  := symbol_parallel Object.methods (fun o methods => { o with methods }) (fun _ => rfl)
    (fun _ _ => rfl) (congrArg (·.name.name) h :) (congrArg Method.name h :) .method h

end Declare

/-- Declarations that run in parallel give objects that are the same up to case. -/
theorem Object.declare_alike {x y : Declare Unit} (hxy : Declare.Alike x y)
    {object object' : Object} (h : object.keyed = object'.keyed) :
  SameOutcome (fun o o' => o.keyed = o'.keyed) (object.declare x) (object'.declare y)
  := by
  obtain ⟨hresult, hstate⟩ := hxy object object' h
  rw [declare, declare]
  revert hresult hstate
  rcases x.run.run object with ⟨xr, after⟩
  rcases y.run.run object' with ⟨yr, after'⟩
  intro hresult hstate
  cases hresult with
  | ok _ => exact .ok hstate
  | error hfaults => exact .error hfaults

/-- Declarations that run in parallel may be made in any object of a build. -/
theorem Step.declare_parallel (id : ObjId) {x y : Declare Unit} (hxy : Declare.Alike x y) :
  Parallel Build.Respelled Eq (declare id x) (declare id y)
  := by
  intro build build' h
  obtain ⟨hresult, hstate⟩ := hxy _ _ (h.object id)
  exact ⟨hresult, h.modifyObject id fun _ _ _ => hstate⟩

/-! ### Slots -/

/-- Sub-objects that are the same up to case have as many instances. -/
theorem SubObject.instances_alike {site site' : Site} (h : site.Alike site') {sub sub' : SubObject}
    (hsub : sub.keyed = sub'.keyed) :
  Parallel Eq Eq (sub.instances site) (sub'.instances site')
  := by
  have hcount : sub.countExp.map Exp.keyed = sub'.countExp.map Exp.keyed :=
    (congrArg SubObject.countExp hsub :)
  rw [instances, instances]
  revert hcount
  generalize sub.countExp = count
  generalize sub'.countExp = count'
  intro hcount
  cases optionRel_of_map_eq hcount with
  | none => exact Parallel.pure rfl
  | some hexp =>
    dsimp only
    rw [Exp.pos_of_keyed hexp]
    apply Parallel.bind (Site.evalInt_alike h hexp)
    rintro count _ rfl
    split_ifs
    · exact Parallel.failAt _ rfl
    · exact Parallel.pure rfl

/-- Slots of sub-objects are given out by counts alone. -/
theorem placeSubs_keyed (index : Nat) (subs : List SubObject) (counts : List Nat) :
  (placeSubs index subs counts).map SubObject.keyed
    = placeSubs index (subs.map SubObject.keyed) counts
  := by
  induction subs generalizing index counts with
  | nil => cases counts <;> rfl
  | cons sub subs ih =>
    cases counts with
    | nil => rfl
    | cons count counts =>
      rw [List.map_cons, placeSubs, placeSubs, List.map_cons, ih]
      rfl

/-- Slots of methods are given out by place and visibility alone. -/
theorem placeMethods_keyed (nextPublic nextPrivate : Nat) (methods : List Method) :
  (placeMethods nextPublic nextPrivate methods).map Method.keyed
    = placeMethods nextPublic nextPrivate (methods.map Method.keyed)
  := by
  induction methods generalizing nextPublic nextPrivate with
  | nil => rfl
  | cons method rest ih =>
    have hpublic : method.keyed.isPublic = method.isPublic := rfl
    rw [List.map_cons, placeMethods, placeMethods, hpublic]
    split_ifs
    · rw [List.map_cons, ih]
      rfl
    · rw [List.map_cons, ih]
      rfl

namespace Object

theorem withSubSlots_keyed (object : Object) (counts : List Nat) :
  (object.withSubSlots counts).keyed = object.keyed.withSubSlots counts
  := by
  simp only [withSubSlots, keyed, placeSubs_keyed, List.length_map]

theorem withTable_keyed (object : Object) (slots : Nat) :
  (object.withTable slots).keyed = object.keyed.withTable slots
  := by
  simp only [withTable, keyed, List.length_map]

theorem withMethodSlots_keyed (object : Object) :
  object.withMethodSlots.keyed = object.keyed.withMethodSlots
  := by
  simp only [withMethodSlots, keyed, placeMethods_keyed, List.countP_map, Function.comp_def]
  rfl

end Object

namespace Step

/-- Giving out the slots of methods ignores case. -/
theorem placeMethods_ignoresCase (id : ObjId) :
  IgnoresCase (placeMethods id)
  := modifyObject_ignoresCase id Object.withMethodSlots_keyed

/-- Giving out the slots of sub-objects ignores case. -/
theorem placeSubs_ignoresCase (id : ObjId) :
  IgnoresCase (placeSubs id)
  := by
  apply Parallel.bind (object_parallel id)
  intro object object' hobject
  have hsubs : object.subs.map SubObject.keyed = object'.subs.map SubObject.keyed :=
    (congrArg Object.subs hobject :)
  rw [Object.length_methods_of_keyed hobject]
  have hcounts : Parallel Build.Respelled Eq
      (evaluateIn id fun site => object.subs.mapM fun sub => sub.instances site)
      (evaluateIn id fun site => object'.subs.mapM fun sub => sub.instances site) := by
    apply evaluateIn_parallel
    intro site site' hsite
    apply Parallel.mapM_eq (forall₂_of_map_eq hsubs)
    intro sub sub' hsub
    exact SubObject.instances_alike hsite hsub
  apply Parallel.bind hcounts
  rintro counts _ rfl
  refine Parallel.andThen (modifyObject_ignoresCase id fun o => o.withSubSlots_keyed counts) ?_
  split_ifs
  · exact Parallel.failAt _ rfl
  · exact modifyObject_ignoresCase id fun o => o.withTable_keyed _

end Step

/-! ### Variables -/

/-- A dimension has one value in all spellings. -/
theorem Var.extent_alike {site site' : Site} (h : site.Alike site') (var var' : Var)
    {dim dim' : Exp} (hdim : dim.keyed = dim'.keyed) :
  Parallel Eq Eq (var.extent site dim) (var'.extent site' dim')
  := by
  rw [extent, extent, Exp.pos_of_keyed hdim]
  apply Parallel.bind (Site.evalInt_alike h hdim)
  rintro n _ rfl
  split_ifs
  · exact Parallel.failAt _ rfl
  · exact Parallel.pure rfl

/-- Variables that are the same up to case have the same extents. -/
theorem Var.measure_alike {site site' : Site} (h : site.Alike site') {var var' : Var}
    (hvar : var.keyed = var'.keyed) :
  Parallel Eq Eq (var.measure site) (var'.measure site')
  := by
  have hdims : var.dims.map Exp.keyed = var'.dims.map Exp.keyed := (congrArg Var.dims hvar :)
  have hextents := Parallel.mapM_eq (forall₂_of_map_eq hdims)
    fun _ _ hdim => extent_alike h var var' hdim
  apply Parallel.bind hextents
  rintro extents _ rfl
  exact Parallel.refl_eq _

/-- Variables are given their offsets by size and extents alone. -/
theorem placeVars_keyed (size : Size) (offset : Nat) (vars : List Var) :
  placeVars size offset (vars.map Var.keyed)
    = ((placeVars size offset vars).1.map Var.keyed, (placeVars size offset vars).2)
  := by
  induction vars generalizing offset with
  | nil => rfl
  | cons var rest ih =>
    have hsize : var.keyed.size = var.size := rfl
    have hbytes : var.keyed.bytes = var.bytes := rfl
    simp only [List.map_cons, placeVars, hsize, hbytes, ih]
    split_ifs <;> rfl

theorem Object.withVars_keyed (object : Object) (extents : List (List Nat)) :
  (object.withVars extents).keyed = object.keyed.withVars extents
  := by
  have hmeasured : (object.vars.map Var.keyed).zipWith (fun var extents => { var with extents })
      extents = (object.vars.zipWith (fun var extents => { var with extents }) extents).map
        Var.keyed := by
    rw [List.zipWith_map_left, List.map_zipWith]
    rfl
  simp only [withVars, keyed, hmeasured, placeVars_keyed]

/-- Laying out variables ignores case. -/
theorem Step.placeVars_ignoresCase (id : ObjId) :
  IgnoresCase (placeVars id)
  := by
  apply Parallel.bind (object_parallel id)
  intro object object' hobject
  have hvars : object.vars.map Var.keyed = object'.vars.map Var.keyed :=
    (congrArg Object.vars hobject :)
  have hextents : Parallel Build.Respelled Eq
      (evaluateIn id fun site => object.vars.mapM fun var => var.measure site)
      (evaluateIn id fun site => object'.vars.mapM fun var => var.measure site) := by
    apply evaluateIn_parallel
    intro site site' hsite
    apply Parallel.mapM_eq (forall₂_of_map_eq hvars)
    intro var var' hvar
    exact Var.measure_alike hsite hvar
  apply Parallel.bind hextents
  rintro extents _ rfl
  exact modifyObject_ignoresCase id fun o => o.withVars_keyed extents

/-! ### Frames -/

/-- A slot of a frame is added in all spellings of its name, or its name is taken in all. -/
theorem Scope.add_alike (scope : Scope) {name name' : Ident} (hname : name.keyed = name'.keyed)
    (offset : Int) {object object' : Object} (h : object.keyed = object'.keyed) :
  SameOutcome Eq (scope.add name offset object) (scope.add name' offset object')
  := by
  have hkey : nameKey name.name = nameKey name'.name := (congrArg Ident.name hname :)
  have hpos : name.pos = name'.pos := (congrArg Ident.pos hname :)
  simp only [add, hkey, hpos, Object.find?_of_keyed h]
  split_ifs
  · exact .error rfl
  · exact .ok rfl

/-- Parameters that are the same up to case get the same slots. -/
theorem addParams_alike {object object' : Object} (h : object.keyed = object'.keyed)
    {params params' : List Ident} (hparams : params.map Ident.keyed = params'.map Ident.keyed)
    (scope : Scope) (offset : Nat) :
  SameOutcome Eq (addParams object scope offset params) (addParams object' scope offset params')
  := by
  have hall := forall₂_of_map_eq hparams
  clear hparams
  induction hall generalizing scope offset with
  | nil => exact .ok rfl
  | cons hparam _ ih =>
    apply SameOutcome.bind (scope.add_alike hparam offset h)
    rintro added _ rfl
    exact ih added _

section

variable {site site' : Site} (h : site.Alike site')

include h

/-- Locals that are the same up to case take as many longs. -/
theorem LocalDecl.longs_alike {decl decl' : LocalDecl} (hdecl : decl.keyed = decl'.keyed) :
  Parallel Eq Eq (decl.longs site) (decl'.longs site')
  := by
  have hcount : decl.count.map Exp.keyed = decl'.count.map Exp.keyed :=
    (congrArg LocalDecl.count hdecl :)
  have hpos : decl.name.pos = decl'.name.pos := (congrArg (·.name.pos) hdecl :)
  rw [longs, longs, hpos]
  apply Parallel.bind (Site.evalIntOr_alike h 1 hcount)
  rintro count _ rfl
  split_ifs
  · exact Parallel.failAt _ rfl
  · exact Parallel.pure rfl

/-- Locals that are the same up to case get the same slots. -/
theorem addLocals_alike (base : Nat) {locals locals' : List LocalDecl}
    (hlocals : locals.map LocalDecl.keyed = locals'.map LocalDecl.keyed) (frame : Frame) :
  Parallel Eq Eq (addLocals site base frame locals) (addLocals site' base frame locals')
  := by
  have hall := forall₂_of_map_eq hlocals
  clear hlocals
  induction hall generalizing frame with
  | nil => exact Parallel.pure rfl
  | cons hdecl _ ih =>
    apply Parallel.bind (LocalDecl.longs_alike h hdecl)
    rintro longs _ rfl
    have hname := (congrArg LocalDecl.name hdecl :)
    apply Parallel.bind (Parallel.liftM (Scope.add_alike _ hname _ h.object))
    rintro scope _ rfl
    exact ih _

end

namespace Method

/-- The scope of a method with its result only, if one is declared. -/
def resultScope (method : Method) (object : Object) : Except Fault Scope :=
  match method.result with
  | some result => Scope.add [] result 0 object
  | none => .ok []

/-- The frame of a method whose result has its slot, if one is declared. -/
def frameFrom (method : Method) (site : Site) (scope : Scope) : Eval Frame := do
  let scope ← liftM (addParams site.object scope 4 method.params)
  let frame ← addLocals site (4 + 4 * method.params.length) { scope } method.locals
  if method.result.isNone && (lookup? site.objects site.obj frame.scope "RESULT").isNone then
    let result : Ident := { name := "RESULT", pos := method.name.pos }
    let scope ← liftM (frame.scope.add result 0 site.object)
    return { frame with scope }
  else
    return frame

/-- A frame is built in two parts: the slot of the result, and all others. -/
theorem frame_eq (method : Method) (site : Site) :
  method.frame site = (do
    let scope ← liftM (method.resultScope site.object)
    method.frameFrom site scope)
  := by
  obtain ⟨name, isPublic, result, params, locals, body, index, offset, localsSize, code⟩ := method
  cases result <;> rfl

/-- The slot of the result is the same in all spellings. -/
theorem resultScope_alike {method method' : Method} (hmethod : method.keyed = method'.keyed)
    {object object' : Object} (h : object.keyed = object'.keyed) :
  SameOutcome Eq (method.resultScope object) (method'.resultScope object')
  := by
  have hresult : method.result.map Ident.keyed = method'.result.map Ident.keyed :=
    (congrArg Method.result hmethod :)
  rw [resultScope, resultScope]
  revert hresult
  generalize method.result = result
  generalize method'.result = result'
  intro hresult
  cases optionRel_of_map_eq hresult with
  | none => exact .ok rfl
  | some hname => exact Scope.add_alike [] hname 0 h

variable {site site' : Site} (h : site.Alike site') {method method' : Method}
  (hmethod : method.keyed = method'.keyed)

include h hmethod

theorem frameFrom_alike (scope : Scope) :
  Parallel Eq Eq (method.frameFrom site scope) (method'.frameFrom site' scope)
  := by
  have hresult : method.result.map Ident.keyed = method'.result.map Ident.keyed :=
    (congrArg Method.result hmethod :)
  have hparams : method.params.map Ident.keyed = method'.params.map Ident.keyed :=
    (congrArg Method.params hmethod :)
  have hlocals : method.locals.map LocalDecl.keyed = method'.locals.map LocalDecl.keyed :=
    (congrArg Method.locals hmethod :)
  have hpos : method.name.pos = method'.name.pos := (congrArg (·.name.pos) hmethod :)
  have hdeclared : method.result.isNone = method'.result.isNone := by
    simpa only [Option.isNone_map] using congrArg Option.isNone hresult
  apply Parallel.bind (Parallel.liftM (addParams_alike h.object hparams scope 4))
  rintro scope _ rfl
  rw [Site.length_params_of_keyed hmethod]
  apply Parallel.bind (addLocals_alike h _ hlocals _)
  rintro frame _ rfl
  rw [hdeclared, h.obj, isNone_lookup?_alike h.objects, hpos]
  split_ifs
  · apply Parallel.bind (Parallel.liftM (frame.scope.add_alike rfl 0 h.object))
    rintro scope _ rfl
    exact Parallel.pure rfl
  · exact Parallel.pure rfl

/-- Methods that are the same up to case have one frame. -/
theorem frame_alike :
  Parallel Eq Eq (method.frame site) (method'.frame site')
  := by
  rw [frame_eq, frame_eq]
  apply Parallel.bind (Parallel.liftM (resultScope_alike hmethod h.object))
  rintro scope _ rfl
  exact frameFrom_alike h hmethod scope

/-- Methods that are the same up to case have the same code, from the same base. -/
theorem compile_alike (config : Config) (base : Int) :
  Parallel Eq Eq (method.compile config site base) (method'.compile config site' base)
  := by
  have hbody : Stmt.keyedBlock method.body = Stmt.keyedBlock method'.body :=
    (congrArg Method.body hmethod :)
  have hpos : method.name.pos = method'.name.pos := (congrArg (·.name.pos) hmethod :)
  rw [compile, compile, hpos]
  apply Parallel.bind (frame_alike h hmethod)
  rintro frame _ rfl
  have hframed : Site.Alike { site with scope := frame.scope }
      { site' with scope := frame.scope } :=
    (congrArg (fun (site : Site) => { site with scope := frame.scope }) h :)
  apply Parallel.bind (Site.draft_alike hframed hbody)
  rintro draft _ rfl
  apply Parallel.bind (Parallel.liftAt _ _)
  rintro code _ rfl
  exact Parallel.pure rfl

end Method

/-! ### Methods -/

namespace Object

theorem codeStart_keyed (object : Object) :
  object.keyed.codeStart = object.codeStart
  := by
  simp only [codeStart, keyed, List.length_map]

theorem methodOrder_keyed (object : Object) :
  object.keyed.methodOrder = object.methodOrder
  := by
  simp only [methodOrder, keyed, List.length_map, List.getElem?_map, Option.map_map,
    Function.comp_def]
  rfl

/-- A change that ignores case may be made to the method at a place. -/
theorem modifyMethod_alike {object object' : Object} (h : object.keyed = object'.keyed)
    (index : Nat) {f : Method → Method}
    (hf : ∀ method method', method.keyed = method'.keyed → (f method).keyed = (f method').keyed) :
  (object.modifyMethod index f).keyed = (object'.modifyMethod index f).keyed
  := by
  have hmethods : object.methods.map Method.keyed = object'.methods.map Method.keyed :=
    (congrArg Object.methods h :)
  have hmodified := map_modify_alike hmethods hf index
  exact (congrArg₂ (fun (object : Object) methods => { object with methods }) h hmodified :)

end Object

namespace Step

/-- Compiling a method ignores case. -/
theorem compileMethod_ignoresCase (config : Config) (id : ObjId) (index : Nat) (base : Int) :
  IgnoresCase (compileMethod config id index base)
  := by
  apply Parallel.bind (object_parallel id)
  intro object object' hobject
  have hmethods : object.methods.map Method.keyed = object'.methods.map Method.keyed :=
    (congrArg Object.methods hobject :)
  have hrel := forall₂_getElem? (forall₂_of_map_eq hmethods) index
  revert hrel
  generalize object.methods[index]? = found
  generalize object'.methods[index]? = found'
  rintro (hmethod | _)
  · apply Parallel.map
    · apply evaluateIn_parallel
      intro site site' hsite
      exact Method.compile_alike hsite hmethod config base
    · rintro compiled _ rfl
      rfl
  · exact Parallel.pure rfl

/-- Compiling methods one behind the other ignores case. -/
theorem compileFrom_ignoresCase (config : Config) (id : ObjId) (offset : Nat) (places : List Nat) :
  IgnoresCase (compileFrom config id offset places)
  := by
  induction places generalizing offset with
  | nil => exact Parallel.pure rfl
  | cons index rest ih =>
    apply Parallel.bind (inObject_parallel id (compileMethod_ignoresCase config id index offset))
    rintro compiled _ rfl
    cases compiled with
    | none => exact ih offset
    | some compiled =>
      refine Parallel.andThen ?_ (Parallel.andThen ?_ (ih _))
      · exact IgnoresCase.forM _ fun _ => warn_ignoresCase id _ _
      · apply modifyObject_parallel
        intro object object' hobject
        apply Object.modifyMethod_alike hobject
        intro method method' hmethod
        exact (congrArg (fun (method : Method) => { method with
          offset, localsSize := compiled.localsSize, code := compiled.code }) hmethod :)

/-- Compiling the methods of an object ignores case. -/
theorem compileMethods_ignoresCase (config : Config) (id : ObjId) :
  IgnoresCase (compileMethods config id)
  := by
  apply Parallel.bind (object_parallel id)
  intro object object' hobject
  rw [← object.codeStart_keyed, ← object.methodOrder_keyed, hobject, Object.codeStart_keyed,
    Object.methodOrder_keyed]
  apply Parallel.bind (compileFrom_ignoresCase config id _ _)
  rintro finish _ rfl
  refine Parallel.andThen (modifyObject_ignoresCase id fun _ => rfl) ?_
  exact Parallel.pure rfl

end Step

end SpinHub
