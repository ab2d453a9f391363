import Mathlib
import SpinHub.Container
import SpinHub.Image
import SpinHub.Proofs.KeyedBuilds

/-!
# Images by their keys

The image and the containers of builds that are the same up to case are the same. They are made of
numbers and code, and of the keys of names; what they read from objects by name, the settings of the
clock and of the stack, is found by key.
-/

namespace SpinHub

/-! ### Runs that cannot fail -/

/-- From related states the computations leave related results and related states. -/
def Abreast {σ α : Type} (S : σ → σ → Prop) (V : α → α → Prop) (x y : StateM σ α) : Prop :=
  ∀ s t, S s t → V (x.run s).1 (y.run t).1 ∧ S (x.run s).2 (y.run t).2

namespace Abreast

variable {σ α β : Type} {S : σ → σ → Prop} {V : α → α → Prop} {W : β → β → Prop}

theorem pure {a b : α} (h : V a b) :
  Abreast S V (pure a) (pure b)
  := fun _ _ hst => ⟨h, hst⟩

/-- Two parts run abreast if each does. -/
theorem bind {x y : StateM σ α} {f g : α → StateM σ β} (hx : Abreast S V x y)
    (hf : ∀ a b, V a b → Abreast S W (f a) (g b)) :
  Abreast S W (x >>= f) (y >>= g)
  := by
  intro s t hst
  obtain ⟨hresult, hstate⟩ := hx s t hst
  exact hf _ _ hresult _ _ hstate

theorem get :
  Abreast S S (get : StateM σ σ) get
  := fun _ _ hst => ⟨hst, hst⟩

theorem modify {f g : σ → σ} (h : ∀ s t, S s t → S (f s) (g t)) :
  Abreast S Eq (modify f : StateM σ PUnit) (modify g)
  := fun s t hst => ⟨rfl, h s t hst⟩

/-- A part that runs abreast with itself does so for all items in turn. -/
theorem forM {ι : Type} (items : List ι) {f : ι → StateM σ PUnit}
    (hf : ∀ i, Abreast S Eq (f i) (f i)) :
  Abreast S Eq (items.forM f) (items.forM f)
  := by
  induction items with
  | nil => exact pure rfl
  | cons i rest ih => exact bind (hf i) fun _ _ _ => ih

end Abreast

/-- Parts that run abreast are steps that run in parallel and do not fail. -/
theorem Step.ofState_parallel {α : Type} {V : α → α → Prop} {x y : StateM Build α}
    (h : Abreast Build.Respelled V x y) :
  Parallel Build.Respelled V (ofState x) (ofState y)
  := by
  intro build build' hbuild
  obtain ⟨hresult, hstate⟩ := h build build' hbuild
  exact ⟨.ok hresult, hstate⟩

/-! ### Instances -/

/-- The bytes of variables of all instances do not depend on spelling. -/
theorem totalWithin_keyed (objects : List Object) (depth : Nat) (id : ObjId) :
  totalWithin (objects.map Object.keyed) depth id = totalWithin objects depth id
  := by
  induction depth generalizing id with
  | zero =>
    rw [totalWithin, totalWithin, objectAt_keyed]
    rfl
  | succ depth ih =>
    rw [totalWithin, totalWithin, objectAt_keyed]
    simp only [Object.keyed, List.filter_map, List.mapM_map, Function.comp_def, SubObject.keyed, ih]

/-- Replacements are followed by number. -/
theorem survivorWithin_keyed (objects : List Object) (steps : Nat) (id : ObjId) :
  survivorWithin (objects.map Object.keyed) steps id = survivorWithin objects steps id
  := by
  induction steps generalizing id with
  | zero => rfl
  | succ steps ih =>
    have hreplacement : (objectAt objects id).keyed.replacement
        = (objectAt objects id).replacement := rfl
    simp only [survivorWithin, objectAt_keyed, hreplacement, ih]

namespace Build

theorem Respelled.length {build build' : Build} (h : build.Respelled build') :
  build.objects.length = build'.objects.length
  := by
  simpa only [List.length_map] using congrArg List.length h.objects

/-- Builds that are the same up to case have the same survivors. -/
theorem Respelled.survivor {build build' : Build} (h : build.Respelled build') (id : ObjId) :
  build.survivor id = build'.survivor id
  := by
  rw [Build.survivor, Build.survivor, h.length, ← survivorWithin_keyed, h.objects,
    survivorWithin_keyed]

/-- The totals of variables are found and kept in the same way. -/
theorem totalVarSize_abreast (id : ObjId) :
  Abreast Respelled Eq (totalVarSize id) (totalVarSize id)
  := by
  intro build build' h
  have htotals : build.totals = build'.totals := (congrArg Build.totals h :)
  have hrun : totalWithin build.objects build.objects.length id build.totals
      = totalWithin build'.objects build'.objects.length id build'.totals := by
    rw [h.length, htotals, ← totalWithin_keyed, h.objects, totalWithin_keyed]
  refine ⟨(congrArg Prod.fst hrun :), ?_⟩
  exact (congrArg₂ (fun (build : Build) totals => { build with totals }) h
    (congrArg Prod.snd hrun) :)

/-- The entries for sub-objects that are the same up to case are the same. -/
theorem entriesFrom_abreast {build build' : Build} (h : build.Respelled build')
    {subs subs' : List SubObject} (hsubs : subs.map SubObject.keyed = subs'.map SubObject.keyed)
    (offset : Nat) :
  Abreast Respelled Eq (entriesFrom build offset subs) (entriesFrom build' offset subs')
  := by
  have hall := forall₂_of_map_eq hsubs
  clear hsubs
  induction hall generalizing offset with
  | nil => exact Abreast.pure rfl
  | @cons sub sub' subs subs' hsub _ ih =>
    have htarget : sub.target = sub'.target := (congrArg SubObject.target hsub :)
    have howns : sub.ownsVars = sub'.ownsVars := (congrArg SubObject.ownsVars hsub :)
    have hcount : sub.count = sub'.count := (congrArg SubObject.count hsub :)
    have hrest (step : Nat) : Abreast Respelled Eq
        (do
          let own := subEntries (build'.survivor sub'.target) step sub'.count offset
          return own.1 ++ (← entriesFrom build own.2 subs))
        (do
          let own := subEntries (build'.survivor sub'.target) step sub'.count offset
          return own.1 ++ (← entriesFrom build' own.2 subs')) := by
      apply Abreast.bind (ih _)
      rintro rest _ rfl
      exact Abreast.pure rfl
    rw [entriesFrom, entriesFrom, htarget, howns, hcount, h.survivor]
    split_ifs
    · apply Abreast.bind (totalVarSize_abreast _)
      rintro step _ rfl
      exact hrest step
    · exact hrest 0

/-- The table of an object holds the same entries in all spellings. -/
theorem entries_abreast (id : ObjId) :
  Abreast Respelled Eq (entries id) (entries id)
  := by
  apply Abreast.bind Abreast.get
  intro build build' h
  have hsize : (build.object id).varSize = (build'.object id).varSize :=
    (congrArg Object.varSize (h.object id) :)
  have hsubs : (build.object id).subs.map SubObject.keyed
      = (build'.object id).subs.map SubObject.keyed := (congrArg Object.subs (h.object id) :)
  dsimp only
  rw [hsize]
  exact entriesFrom_abreast h hsubs _

end Build

/-! ### Objects -/

namespace Object

/-- Methods stand in the table by visibility and place. -/
theorem methodTable_keyed (object : Object) :
  object.keyed.methodTable = object.methodTable.map Method.keyed
  := by
  simp only [methodTable, keyed, List.filter_map, List.map_append]
  rfl

/-- Whether two objects have the same methods is a matter of their code. -/
theorem sameMethods_keyed (a b : Object) :
  a.keyed.sameMethods b.keyed = a.sameMethods b
  := by
  simp only [sameMethods, methodTable_keyed, List.zip_map, List.all_map]
  simp only [keyed, List.length_map]
  rfl

theorem sizesLong_keyed (object : Object) :
  object.keyed.sizesLong = object.sizesLong
  := by
  simp only [sizesLong, keyed, List.length_map]

theorem methodSlots_keyed (object : Object) :
  object.keyed.methodSlots = object.methodSlots
  := by
  simp only [methodSlots, methodTable_keyed, List.flatMap_map]
  rfl

/-- The DAT section and the code of an object are the same in all spellings. -/
theorem contents_keyed (object : Object) :
  object.keyed.contents = object.contents
  := by
  simp only [contents, methodTable_keyed, List.flatMap_map]
  rfl

/-- The block with empty instance slots is the same in all spellings. -/
theorem body_keyed (object : Object) :
  object.keyed.body = object.body
  := by
  simp only [body, sizesLong_keyed, methodSlots_keyed, contents_keyed]
  rfl

end Object

/-! ### Duplicates and blocks -/

namespace Build

/-- Two objects are found to be the same in all spellings or in none. -/
theorem same_abreast (a b : ObjId) :
  Abreast Respelled Eq (same a b) (same a b)
  := by
  apply Abreast.bind Abreast.get
  intro build build' h
  have hsame : (build.object a).sameMethods (build.object b)
      = (build'.object a).sameMethods (build'.object b) := by
    rw [← Object.sameMethods_keyed, h.object, h.object, Object.sameMethods_keyed]
  have hbytes (id : ObjId) : (build.object id).datBytes = (build'.object id).datBytes :=
    (congrArg Object.datBytes (h.object id) :)
  dsimp only
  rw [hsame, hbytes, hbytes]
  split_ifs
  · apply Abreast.bind (entries_abreast a)
    rintro entriesA _ rfl
    apply Abreast.bind (entries_abreast b)
    rintro entriesB _ rfl
    exact Abreast.pure rfl
  · exact Abreast.pure rfl

/-- An object is replaced in all spellings or in none. -/
theorem replaceIfSame_abreast (survivor candidate : ObjId) :
  Abreast Respelled Eq (replaceIfSame survivor candidate) (replaceIfSame survivor candidate)
  := by
  apply Abreast.bind Abreast.get
  intro build build' h
  have hreplacement : (build.object candidate).replacement
      = (build'.object candidate).replacement :=
    (congrArg Object.replacement (h.object candidate) :)
  rw [hreplacement]
  split_ifs
  · apply Abreast.bind (same_abreast candidate survivor)
    rintro same _ rfl
    split_ifs
    · apply Abreast.modify
      intro b b' hb
      apply hb.modifyObject
      intro object object' hobject
      exact (congrArg (fun (o : Object) => { o with replacement := some survivor }) hobject :)
    · exact Abreast.pure rfl
  · exact Abreast.pure rfl

/-- The objects that are replaced are the same in all spellings, through all rounds. -/
theorem shareFrom_abreast (ids : List ObjId) :
  Abreast Respelled Eq (shareFrom ids) (shareFrom ids)
  := by
  induction ids with
  | nil => exact Abreast.pure rfl
  | cons latest earlier ih =>
    apply Abreast.bind Abreast.get
    intro build build' h
    have hreplacement : (build.object latest).replacement = (build'.object latest).replacement :=
      (congrArg Object.replacement (h.object latest) :)
    dsimp only
    rw [hreplacement]
    apply Abreast.bind (Abreast.forM earlier (replaceIfSame_abreast _))
    intro _ _ _
    exact ih

/-- Sharing identical objects ignores case. -/
theorem shareDuplicates_abreast :
  Abreast Respelled Eq shareDuplicates shareDuplicates
  := by
  apply Abreast.bind Abreast.get
  intro build build' h
  rw [h.order]
  exact shareFrom_abreast _

theorem Respelled.entrySlot {build build' : Build} (h : build.Respelled build') :
  build.entrySlot = build'.entrySlot
  := by
  funext base entry
  have haddress : (build.object entry.1).address = (build'.object entry.1).address :=
    (congrArg Object.address (h.object entry.1) :)
  rw [Build.entrySlot, Build.entrySlot, haddress]

/-- The block of an object is the same in all spellings. -/
theorem block_abreast (id : ObjId) (base : Int) :
  Abreast Respelled Eq (block id base) (block id base)
  := by
  apply Abreast.bind Abreast.get
  intro build build' h
  have hobject := h.object id
  have hsize : (build.object id).size = (build'.object id).size :=
    (congrArg Object.size hobject :)
  dsimp only
  rw [← (build.object id).sizesLong_keyed, ← (build.object id).methodSlots_keyed,
    ← (build.object id).contents_keyed, hobject, Object.sizesLong_keyed, Object.methodSlots_keyed,
    Object.contents_keyed, hsize, h.entrySlot]
  apply Abreast.bind (entries_abreast id)
  rintro slots _ rfl
  exact Abreast.pure rfl

end Build

/-! ### Settings -/

namespace Site

variable {site site' : Site} (h : site.Alike site')

include h

theorem nameKey_file :
  nameKey site.object.file = nameKey site'.object.file
  := (congrArg Object.file h.object :)

/-- A setting is found by key, and its value is that of a constant. -/
theorem setting_alike (name : String) :
  Parallel Eq Eq (site.setting name) (site'.setting name)
  := by
  have hrel := h.lookup? (Eq.refl (nameKey name))
  rw [setting, setting]
  revert hrel
  generalize site.lookup? name = found
  generalize site'.lookup? name = found'
  rintro (hmeaning | _)
  · cases hmeaning with
    | @con owner index c c' hcon =>
      have hpos : c.name.pos = c'.name.pos := (congrArg (·.name.pos) hcon :)
      dsimp only
      rw [hpos]
      apply Parallel.bind (conValue_alike h owner index c c' hcon)
      rintro v _ rfl
      cases v with
      | int value => exact Parallel.pure rfl
      | float x => exact Parallel.inFile (nameKey_file h) (Parallel.failAt _ rfl)
    | slot | label | var | sub | method | file =>
      exact Parallel.inFile (nameKey_file h) (Parallel.failAt _ rfl)
  · exact Parallel.pure rfl

/-- A setting has its value, or the default, in all spellings. -/
theorem settingOr_alike (name : String) (default : Int) :
  Parallel Eq Eq (site.settingOr name default) (site'.settingOr name default)
  := by
  apply Parallel.bind (setting_alike h name)
  rintro setting _ rfl
  exact Parallel.refl_eq _

/-- An object asks for as many bytes in all spellings. -/
theorem space_alike :
  Parallel Eq Eq site.space site'.space
  := by
  apply Parallel.bind (setting_alike h "_SPACE")
  rintro setting _ rfl
  cases setting with
  | none => exact Parallel.pure rfl
  | some setting =>
    dsimp only
    split_ifs
    · exact Parallel.inFile (nameKey_file h) (Parallel.failAt _ rfl)
    · exact Parallel.pure rfl

end Site

/-! ### The image -/

namespace Step

/-- The clock is found by settings of the root, so it ignores case. -/
theorem clock_ignoresCase :
  IgnoresCase clock
  := by
  apply Parallel.bind Parallel.get
  intro build build' h
  have hsite := h.site Build.root
  apply Parallel.bind (evaluate_parallel (Site.setting_alike hsite "_CLKFREQ"))
  rintro frequency _ rfl
  apply Parallel.bind (evaluate_parallel (Site.setting_alike hsite "_XINFREQ"))
  rintro xin _ rfl
  apply Parallel.bind (evaluate_parallel (Site.setting_alike hsite "_CLKMODE"))
  rintro mode _ rfl
  exact Parallel.inFile (Site.nameKey_file hsite) (Parallel.liftM (SameOutcome.refl_eq _))

/-- The bytes reserved for all objects do not depend on spelling. -/
theorem reserved_ignoresCase :
  IgnoresCase reserved
  := by
  apply Parallel.bind Parallel.get
  intro build build' h
  rw [h.order]
  have hasked : IgnoresCase (build'.order.mapM fun id => evaluateIn id Site.space) := by
    apply IgnoresCase.mapM
    intro id
    exact evaluateIn_parallel id fun _ _ => Site.space_alike
  apply Parallel.bind hasked
  rintro asked _ rfl
  exact Parallel.pure rfl

/-- Objects are given addresses by size and order. -/
theorem assignAddresses_ignoresCase (ids : List ObjId) (address : Nat) :
  IgnoresCase (assignAddresses address ids)
  := by
  induction ids generalizing address with
  | nil => exact Parallel.pure rfl
  | cons id rest ih =>
    refine Parallel.andThen (modifyObject_ignoresCase id fun _ => rfl) ?_
    apply Parallel.bind (object_parallel id)
    intro object object' hobject
    have hsize : object.size = object'.size := (congrArg Object.size hobject :)
    rw [hsize]
    exact ih _

/-- The blocks of objects, at their addresses, are the same in all spellings. -/
theorem blocks_ignoresCase (ids : List ObjId) :
  IgnoresCase (blocks ids)
  := by
  apply IgnoresCase.mapM
  intro id
  apply Parallel.bind (object_parallel id)
  intro object object' hobject
  have haddress : object.address = object'.address := (congrArg Object.address hobject :)
  rw [haddress]
  apply Parallel.bind (ofState_parallel (Build.block_abreast id _))
  rintro block _ rfl
  exact Parallel.pure rfl

end Step

/-- Builds that are the same up to case keep the same objects. -/
theorem Build.Respelled.survivors {build build' : Build} (h : build.Respelled build') :
  build.survivors = build'.survivors
  := by
  have hreplacement (id : ObjId) : (build.object id).replacement = (build'.object id).replacement :=
    (congrArg Object.replacement (h.object id) :)
  simp only [Build.survivors, h.order, hreplacement]

/-- The image of a build does not depend on the case of names. -/
theorem Step.image_ignoresCase (config : Config) :
  IgnoresCase (image config)
  := by
  apply Parallel.bind reserved_ignoresCase
  rintro reserved _ rfl
  apply Parallel.bind Parallel.get
  intro build build' h
  rw [h.survivors]
  apply Parallel.bind (assignAddresses_ignoresCase _ _)
  rintro finish _ rfl
  apply Parallel.check
  apply Parallel.bind (blocks_ignoresCase _)
  rintro blocks _ rfl
  apply Parallel.bind (Parallel.liftAt _ _)
  rintro memory _ rfl
  apply Parallel.bind clock_ignoresCase
  rintro clock _ rfl
  apply Parallel.bind (ofState_parallel (Build.totalVarSize_abreast _))
  rintro varBytes _ rfl
  apply Parallel.bind (evaluateIn_parallel _ fun _ _ h => Site.settingOr_alike h _ _)
  rintro free _ rfl
  apply Parallel.bind (evaluateIn_parallel _ fun _ _ h => Site.settingOr_alike h _ _)
  rintro stack _ rfl
  refine Parallel.andThen (Parallel.liftAt _ _) ?_
  apply Parallel.check
  apply Parallel.bind Parallel.get
  intro last last' hlast
  have hfirst : (last.object Build.root).firstPublic?.map Method.keyed
      = (last'.object Build.root).firstPublic?.map Method.keyed := by
    rw [← Object.firstPublic?_keyed, hlast.object, Object.firstPublic?_keyed]
  have haddress (id : ObjId) : (last.object id).address = (last'.object id).address :=
    (congrArg Object.address (hlast.object id) :)
  rw [hlast.survivor, haddress]
  dsimp only
  revert hfirst
  generalize (last.object Build.root).firstPublic? = first
  generalize (last'.object Build.root).firstPublic? = first'
  intro hfirst
  cases optionRel_of_map_eq hfirst with
  | none => exact Parallel.failAt _ rfl
  | @some method method' hmethod =>
    have hoffset : method.offset = method'.offset := (congrArg Method.offset hmethod :)
    have hframe : method.frameSize = method'.frameSize := by
      have hlocals : method.localsSize = method'.localsSize :=
        (congrArg Method.localsSize hmethod :)
      rw [Method.frameSize, Method.frameSize, hlocals, Site.length_params_of_keyed hmethod]
    dsimp only
    rw [hoffset, hframe]
    apply Parallel.bind (Parallel.liftAt _ _)
    rintro second _ rfl
    apply Parallel.bind (Parallel.liftAt _ _)
    rintro last _ rfl
    exact Parallel.pure rfl

/-! ### Containers -/

theorem Object.imports_keyed (object : Object) :
  object.keyed.imports = object.imports
  := by
  simp only [imports, keyed, List.map_map, Function.comp_def, SubObject.keyed, Ident.keyed,
    FileName.importName_nameKey]

theorem Object.methodExports_keyed (object : Object) :
  object.keyed.methodExports = object.methodExports
  := by
  simp only [methodExports, keyed, List.filter_map, List.map_map, Function.comp_def, Method.keyed,
    Ident.keyed, nameKey_nameKey, List.length_map]

namespace Site

variable {site site' : Site} (h : site.Alike site')

include h

/-- The constants that an object offers have the same keys and values in all spellings. -/
theorem conExports_alike :
  Parallel Eq Eq site.conExports site'.conExports
  := by
  have hcons : site.object.cons.map Con.keyed = site'.object.cons.map Con.keyed :=
    (congrArg Object.cons h.object :)
  have hdeclared : (site.object.cons.zipIdx.filter (!·.1.builtin)).map (Prod.map Con.keyed id)
      = (site'.object.cons.zipIdx.filter (!·.1.builtin)).map (Prod.map Con.keyed id) := by
    have hfiltered := congrArg (fun cons => cons.zipIdx.filter (!·.1.builtin)) hcons
    simp only [List.zipIdx_map, List.filter_map] at hfiltered
    exact hfiltered
  apply Parallel.mapM_eq (forall₂_of_map_eq hdeclared)
  rintro ⟨con, index⟩ ⟨con', _⟩ hpair
  obtain ⟨hcon, rfl⟩ := Prod.mk.inj hpair
  have hname : nameKey con.name.name = nameKey con'.name.name := (congrArg (·.name.name) hcon :)
  dsimp only
  rw [h.obj, hname]
  apply Parallel.bind (conValue_alike h _ _ _ _ hcon)
  rintro v _ rfl
  exact Parallel.pure rfl

/-- The container of an object does not depend on the case of names. -/
theorem container_alike :
  Parallel Eq Eq site.container site'.container
  := by
  apply Parallel.bind (conExports_alike h)
  rintro constants _ rfl
  have hobject := h.object
  have hsize : site.object.varSize = site'.object.varSize := (congrArg Object.varSize hobject :)
  dsimp only
  rw [← site.object.methodExports_keyed, ← site.object.imports_keyed, ← site.object.body_keyed,
    hobject, Object.methodExports_keyed, Object.imports_keyed, Object.body_keyed, hsize]
  exact Parallel.pure rfl

end Site

end SpinHub
