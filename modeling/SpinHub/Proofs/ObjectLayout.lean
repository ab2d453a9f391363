import Mathlib
import SpinHub.Compilation
import SpinHub.Proofs.Frames
import SpinHub.Proofs.InstanceSlots

/-!
# The layout of objects

The phases that lay an object out each fill in one part of it: the slots of its table, its DAT
section, and the code of its methods, one behind another in the order of the table. A built
object is `Compiled`: all that its block is made from stands where the parts before it end.
-/

namespace SpinHub

variable {α β : Type}

/-- Methods whose code stands one behind another from an offset on. -/
def Consecutive : Nat → List Method → Prop
  | _, [] => True
  | offset, method :: rest =>
    method.offset = offset ∧ Consecutive (offset + method.code.length) rest

namespace Object

/-- The slots of the table are given out: methods from slot 1 on in the order of the table, and
behind them the instances of the sub-objects as declared. -/
structure Slotted (object : Object) : Prop where
  methods : object.methodTable.map (·.index) = List.range' 1 object.methods.length
  subs : ∀ i sub, object.subs[i]? = some sub →
    sub.index = object.methods.length + 1 + total ((object.subs.take i).map (·.count))
  subSlots : object.subSlots = total (object.subs.map (·.count))
  headerSize : object.headerSize = (object.subSlots + object.methods.length + 1) * 4
  fewSubs : object.subSlots ≤ 255
  fewMethods : object.methods.length + 1 ≤ 255

/-- The DAT section stands behind the table with its labels in it, and the code of the methods
behind the section. -/
structure Compiled (object : Object) : Prop extends object.Slotted where
  labels : ∀ label ∈ object.labels, object.headerSize ≤ label.offset
    ∧ label.offset ≤ object.headerSize + object.datBytes.length
  code : Consecutive object.codeStart object.methodTable
  size : object.size
    = roundLong (object.codeStart + (object.methodTable.flatMap (·.code)).length)

/-- Of the methods only their number and their slots matter. -/
theorem Slotted.of_indices {object object' : Object} (h : object.Slotted)
    (hindices : object'.methodTable.map (·.index) = object.methodTable.map (·.index))
    (hcount : object'.methods.length = object.methods.length)
    (hsubs : object'.subs = object.subs) (hslots : object'.subSlots = object.subSlots)
    (hheader : object'.headerSize = object.headerSize) :
  object'.Slotted
  := by
  constructor
  · rw [hindices, hcount]
    exact h.methods
  · rw [hsubs, hcount]
    exact h.subs
  · rw [hslots, hsubs]
    exact h.subSlots
  · rw [hheader, hslots, hcount]
    exact h.headerSize
  · rw [hslots]
    exact h.fewSubs
  · rw [hcount]
    exact h.fewMethods

end Object

/-! ### Slots -/

theorem length_placeMethods (nextPublic nextPrivate : Nat) (methods : List Method) :
  (placeMethods nextPublic nextPrivate methods).length = methods.length
  := by
  induction methods generalizing nextPublic nextPrivate with
  | nil => rfl
  | cons method rest ih =>
    rw [placeMethods]
    split_ifs
    · rw [List.length_cons, ih, List.length_cons]
    · rw [List.length_cons, ih, List.length_cons]

/-- Public methods and the others each get consecutive slots. -/
theorem index_placeMethods (nextPublic nextPrivate : Nat) (methods : List Method) :
  ((placeMethods nextPublic nextPrivate methods).filter (·.isPublic)).map (·.index)
      = List.range' nextPublic (methods.countP (·.isPublic))
    ∧ ((placeMethods nextPublic nextPrivate methods).filter (!·.isPublic)).map (·.index)
      = List.range' nextPrivate (methods.countP (!·.isPublic))
  := by
  induction methods generalizing nextPublic nextPrivate with
  | nil => exact ⟨rfl, rfl⟩
  | cons method rest ih =>
    rw [placeMethods]
    split_ifs with hpublic
    · obtain ⟨hpublics, hothers⟩ := ih (nextPublic + 1) nextPrivate
      constructor
      · simp only [List.filter_cons, List.countP_cons, hpublic, if_true, List.map_cons, hpublics,
          List.range'_succ]
      · simpa only [List.filter_cons, List.countP_cons, hpublic, Bool.not_true, if_false,
          Bool.false_eq_true, Nat.add_zero] using hothers
    · obtain ⟨hpublics, hothers⟩ := ih nextPublic (nextPrivate + 1)
      rw [Bool.not_eq_true] at hpublic
      constructor
      · simpa only [List.filter_cons, List.countP_cons, hpublic, if_false, Bool.false_eq_true,
          Nat.add_zero] using hpublics
      · simp only [List.filter_cons, List.countP_cons, hpublic, Bool.not_false, if_true,
          List.map_cons, hothers, List.range'_succ]

/-- In the order of the table the slots of the methods are 1, 2, and so on. -/
theorem Object.index_withMethodSlots (object : Object) :
  object.withMethodSlots.methodTable.map (·.index) = List.range' 1 object.methods.length
  := by
  obtain ⟨hpublics, hothers⟩ :=
    index_placeMethods 1 (object.methods.countP (·.isPublic) + 1) object.methods
  have hlength : object.methods.length
      = object.methods.countP (·.isPublic) + object.methods.countP (!·.isPublic) := by
    simpa using List.length_eq_countP_add_countP (l := object.methods) (·.isPublic)
  rw [methodTable, List.map_append, withMethodSlots, hpublics, hothers, hlength, Nat.add_comm _ 1,
    List.range'_append_1]

theorem placeSubs_spec {subs : List SubObject} {counts : List Nat}
    (h : counts.length = subs.length) (index : Nat) :
  (placeSubs index subs counts).map (·.count) = counts
    ∧ (∀ i sub, (placeSubs index subs counts)[i]? = some sub →
      sub.index = index + total (counts.take i))
  := by
  induction subs generalizing index counts with
  | nil =>
    obtain rfl := List.length_eq_zero_iff.mp h
    exact ⟨rfl, nofun⟩
  | cons sub subs ih =>
    cases counts with
    | nil => cases h
    | cons count counts =>
      obtain ⟨hcounts, hindex⟩ := ih (Nat.succ.inj h) (index + count)
      rw [placeSubs]
      constructor
      · rw [List.map_cons, hcounts]
      · intro i other hother
        cases i with
        | zero =>
          cases hother
          rfl
        | succ i =>
          rw [hindex i other hother, List.take_succ_cons, Nat.add_assoc]
          rfl

/-- Counts and slots are all that changes of sub-objects. -/
theorem map_placeSubs {γ : Type} {p : SubObject → γ}
    (h : ∀ sub count index, p { sub with count, index } = p sub) (index : Nat)
    (subs : List SubObject) (counts : List Nat) :
  (placeSubs index subs counts).map p = subs.map p
  := by
  induction subs generalizing index counts with
  | nil => rfl
  | cons sub subs ih =>
    cases counts with
    | nil => rfl
    | cons count counts => rw [placeSubs, List.map_cons, List.map_cons, ih, h]

theorem target_placeSubs (index : Nat) (subs : List SubObject) (counts : List Nat) :
  (placeSubs index subs counts).map (·.target) = subs.map (·.target)
  := map_placeSubs (fun _ _ _ => rfl) index subs counts

theorem Object.withSlots_slotted (object : Object) {counts : List Nat}
    (h : counts.length = object.subs.length) (hsubs : total counts ≤ 255)
    (hmethods : object.methods.length + 1 ≤ 255) :
  (((object.withSubSlots counts).withTable (total counts)).withMethodSlots).Slotted
  := by
  obtain ⟨hcounts, hindex⟩ := placeSubs_spec h (object.methods.length + 1)
  set slotted := ((object.withSubSlots counts).withTable (total counts)).withMethodSlots
  have hlength : slotted.methods.length = object.methods.length := length_placeMethods ..
  have hcounts' : slotted.subs.map (·.count) = counts := hcounts
  constructor
  · apply (Object.index_withMethodSlots _).trans
    rw [hlength]
    rfl
  · intro i sub hsub
    rw [hlength, List.map_take, hcounts', hindex i sub hsub]
  · exact congrArg total hcounts'.symm
  · rw [hlength]
    rfl
  · exact hsubs
  · rw [hlength]
    exact hmethods

/-- What giving out slots leaves alone. -/
def Object.origin (object : Object) : List Label × Option ObjId × List ObjId :=
  (object.labels, object.replacement, object.subs.map (·.target))

namespace Step

/-- What giving out the slots of sub-objects does, where it succeeds. -/
theorem yields_placeSubs {id : ObjId} {s s' : Build} {u : Unit}
    (h : Yields (placeSubs id) s u s') :
  ∃ counts memo,
    Yields ((s.object id).subs.mapM fun sub => sub.instances (s.site id)) s.memo counts memo
    ∧ total counts ≤ 255 ∧ (s.object id).methods.length + 1 ≤ 255
    ∧ s' = (({ s with memo }.modifyObject id (·.withSubSlots counts)).modifyObject id
      (·.withTable (total counts)))
  := by
  obtain ⟨counts, m₁, hcounts, hrest⟩ := yields_bind.mp (yields_object_bind.mp h)
  obtain ⟨memo, hmapM, rfl⟩ := yields_evaluateIn.mp hcounts
  obtain ⟨_, m₂, hslots, hrest⟩ := yields_bind.mp hrest
  obtain rfl := yields_modifyObject.mp hslots
  split_ifs at hrest with hfew
  · cases yields_failAt hrest
  · exact ⟨counts, memo, hmapM, by omega, by omega, yields_modifyObject.mp hrest⟩

/-- Gives the sub-objects and methods of an object their slots. -/
theorem yields_slots {id : ObjId} {s s' : Build} {u : Unit}
    (h : Yields (do inObject id (placeSubs id); placeMethods id) s u s') :
  s.Keeps id Object.origin s' ∧ (id < s.objects.length → (s'.object id).Slotted)
  := by
  obtain ⟨_, m, hsubs, hmethods⟩ := yields_bind.mp h
  obtain rfl := yields_modifyObject.mp hmethods
  obtain ⟨counts, memo, hmapM, hfewSubs, hfewMethods, rfl⟩ :=
    yields_placeSubs (yields_inObject.mp hsubs)
  constructor
  · refine Build.Keeps.trans (b := { s with memo }) (.of_unchanged ⟨rfl, rfl, rfl⟩) ?_
    refine .trans (.modifyObject ?_) (.trans (.modifyObject ?_) (.modifyObject ?_))
    · simp only [Object.origin, Object.withSubSlots, target_placeSubs]
    · rfl
    · rfl
  · intro hid
    rw [Build.object_modifyObject_self _ (by simpa using hid),
      Build.object_modifyObject_self _ (by simpa using hid),
      Build.object_modifyObject_self _ (by simpa using hid)]
    apply (s.object id).withSlots_slotted (length_of_mapM hmapM) hfewSubs hfewMethods

/-! ### Labels -/

theorem labels_passLabel (object : Object) (name : String) :
  (object.passLabel name).labels = object.labels
  := (congrArg Object.labels (object.unwritten_passLabel name) :)

/-- A label is new if the entry is a label, and then it is declared where the entry is placed. -/
theorem measureEntry_declares {config : Config} {id : ObjId} {cursor next : Cursor}
    {entry : DatEntry} {s s' : Build} (h : Yields (measureEntry config id cursor entry) s next s')
    {label : Label} (hlabel : label ∈ (s'.object id).labels) :
  label ∈ (s.object id).labels
    ∨ ∃ name alignment placed m, entry = .label name alignment
      ∧ Yields (place config .measure id cursor entry) s placed m ∧ placed.next = next
      ∧ label = placed.start.label name
  := by
  obtain ⟨placed, m, hplaced, rfl, hdeclare⟩ := yields_measureEntry h
  rw [← (place_quiet _ _ _ _ _ _ _ _ hplaced).object]
  rcases hdeclare with ⟨name, alignment, u, rfl, hdeclare⟩ | ⟨_, rfl⟩
  · obtain ⟨object, hadd, rfl⟩ := yields_declareLabel hdeclare
    obtain ⟨_, rfl⟩ := Object.declare_label_eq hadd
    by_cases hid : id < m.objects.length
    · rw [Build.object_modifyObject_self _ hid, labels_passLabel] at hlabel
      rcases List.mem_append.mp hlabel with hold | hnew
      · left
        exact hold
      · right
        exact ⟨name, alignment, placed, m, rfl, hplaced, rfl, List.mem_singleton.mp hnew⟩
    · rw [Build.modifyObject_of_le _ (Nat.le_of_not_lt hid)] at hlabel
      left
      exact hlabel
  · left
    exact hlabel

/-- The labels of an entry stand where the entry is placed. -/
theorem measureEntry_labels {config : Config} {id : ObjId} {cursor next : Cursor}
    {entry : DatEntry} {s s' : Build} (h : Yields (measureEntry config id cursor entry) s next s')
    {label : Label} (hlabel : label ∈ (s'.object id).labels) :
  label ∈ (s.object id).labels ∨ cursor.offset ≤ label.offset ∧ label.offset ≤ next.offset
  := by
  rcases measureEntry_declares h hlabel with hold | ⟨name, _, placed, _, _, hplaced, rfl, rfl⟩
  · left
    exact hold
  · right
    obtain ⟨hstart, length, _, hnext⟩ := place_room hplaced
    dsimp only [Cursor.label]
    omega

theorem measureFrom_labels {config : Config} {id : ObjId} {cursor next : Cursor}
    {entries : List DatEntry} {s s' : Build}
    (h : Yields (measureFrom config id cursor entries) s next s')
    {label : Label} (hlabel : label ∈ (s'.object id).labels) :
  label ∈ (s.object id).labels ∨ cursor.offset ≤ label.offset ∧ label.offset ≤ next.offset
  := by
  induction entries generalizing cursor s with
  | nil =>
    obtain ⟨rfl, rfl⟩ := yields_pure.mp h
    left
    exact hlabel
  | cons entry rest ih =>
    rw [measureFrom_cons] at h
    obtain ⟨middle, m, hentry, hrest⟩ := yields_bind.mp h
    have hbefore := (measureEntry_growsAt hentry).2
    have hbehind := (measureFrom_growsAt hrest).2
    rcases ih hrest with hmiddle | hrange
    · rcases measureEntry_labels hentry hmiddle with hold | hrange
      · left
        exact hold
      · right
        omega
    · right
      omega

/-- Laying out the DAT section and the variables leaves the table alone, and the labels that are
declared stand in the section. -/
theorem yields_sections {config : Config} {id : ObjId} {s m₁ m₂ s' : Build} {u₁ u₂ u₃ : Unit}
    (hmeasure : Yields (measureDat config id) s u₁ m₁)
    (hvars : Yields (inObject id (placeVars id)) m₁ u₂ m₂)
    (hwrite : Yields (writeDat config id) m₂ u₃ s') :
  s.Keeps id Object.table s'
    ∧ ∀ label ∈ (s'.object id).labels, label ∈ (s.object id).labels
      ∨ (s'.object id).headerSize ≤ label.offset
        ∧ label.offset ≤ (s'.object id).headerSize + (s'.object id).datBytes.length
  := by
  have hkeeps₁ := measureDat_keeping config id _ _ _ hmeasure
  have hkeeps₂ := (placeVars_keeping id).inObject _ _ _ hvars
  have hkeeps₃ := writeDat_keeping config id _ _ _ hwrite
  have hmarks := hkeeps₃.self.trans hkeeps₂.self
  obtain ⟨last, t, hto, hgrows, hlabels, hroom⟩ := yields_measureDat hmeasure
  obtain ⟨hgrows', hbytes⟩ := yields_placeVars (yields_inObject.mp hvars)
  have hheader : (m₂.object id).headerSize = (m₁.object id).headerSize :=
    congrArg (·.1.2.2.1) hkeeps₂.self
  have hlength := length_datBytes_writeDat hto (hgrows.trans hgrows')
    (by rw [hheader, hbytes]; exact hroom.le) hwrite
  constructor
  · exact hkeeps₁.trans ((hkeeps₂.comp Prod.fst).trans (hkeeps₃.comp Prod.fst))
  · intro label hlabel
    have hlabels' : (s'.object id).labels = (t.object id).labels :=
      (congrArg Prod.snd hmarks).trans hlabels
    have hheader' : (s'.object id).headerSize = (s.object id).headerSize := by
      have := (congrArg (·.1.2.2.1) hmarks).trans (congrArg (·.2.2.1) hkeeps₁.self)
      exact this
    rw [hlabels'] at hlabel
    rcases measureFrom_labels (yields_measureTo.mp hto) hlabel with hold | hrange
    · left
      rw [Build.object_clearLatest] at hold
      exact hold
    · right
      have hheader₁ : (m₁.object id).headerSize = (s.object id).headerSize :=
        congrArg (·.2.2.1) hkeeps₁.self
      have hstart : (Cursor.start (s.object id).headerSize).offset = (s.object id).headerSize := rfl
      rw [hlength, hbytes, hheader']
      omega

end Step

/-! ### Methods -/

/-- A method without what compiling it fills in. -/
def Method.outline (method : Method) : Method :=
  { method with offset := 0, localsSize := 0, code := [] }

/-- An object without what compiling its methods fills in. -/
def Object.outline (object : Object) : Object :=
  { object with methods := object.methods.map Method.outline, size := 0 }

/-- The code of a method was compiled in object `id` of a build, for the method's offset. -/
def Method.CompiledIn (method : Method) (config : Config) (build : Build) (id : ObjId) : Prop :=
  ∃ memo compiled memo', Yields (method.compile config (build.site id) method.offset) memo
      compiled memo'
    ∧ compiled.code = method.code

/-- Every method of an object was compiled when the object was as it is now but for their code. -/
def Build.Written (build : Build) (config : Config) (id : ObjId) : Prop :=
  ∀ method ∈ (build.object id).methods, ∃ origin : Build,
    (origin.object id).outline = (build.object id).outline ∧ method.CompiledIn config origin id

/-- All that compiling fills in of a method is the outcome of compiling it in object `id` of a
build. -/
def Method.FilledIn (method : Method) (config : Config) (build : Build) (id : ObjId) : Prop :=
  ∃ compiled memo, Yields (method.compile config (build.site id) method.offset) build.memo
      compiled memo
    ∧ compiled.code = method.code ∧ compiled.localsSize = method.localsSize

/-- Every method of an object was filled in when the object was as it is now but for what compiling
fills in. -/
def Build.Filled (build : Build) (config : Config) (id : ObjId) : Prop :=
  ∀ method ∈ (build.object id).methods, ∃ origin : Build,
    (origin.object id).outline = (build.object id).outline ∧ method.FilledIn config origin id

theorem Build.Filled.written {build : Build} {config : Config} {id : ObjId}
    (h : build.Filled config id) :
  build.Written config id
  := by
  intro method hmethod
  obtain ⟨origin, houtline, compiled, memo, hcompile, hcode, _⟩ := h method hmethod
  exact ⟨origin, houtline, origin.memo, compiled, memo, hcompile, hcode⟩

namespace Object

theorem outline_modifyMethod (object : Object) (place : Nat) {f : Method → Method}
    (h : ∀ method, (f method).outline = method.outline) :
  (object.modifyMethod place f).outline = object.outline
  := by
  rw [outline, modifyMethod, map_modify_of_eq h, outline]

/-- The slots of a table do not depend on the code. -/
theorem slotted_outline {object : Object} :
  object.outline.Slotted ↔ object.Slotted
  := by
  have hlength : object.outline.methods.length = object.methods.length := List.length_map ..
  have htable : object.outline.methodTable.map (·.index) = object.methodTable.map (·.index) := by
    simp only [methodTable, outline, List.filter_map, List.map_append, List.map_map]
    rfl
  constructor
  · intro h
    apply h.of_indices htable.symm hlength.symm rfl rfl rfl
  · intro h
    apply h.of_indices htable hlength rfl rfl rfl

theorem methodOrder_outline (object : Object) :
  object.outline.methodOrder = object.methodOrder
  := by
  simp only [methodOrder, outline, List.length_map, List.getElem?_map, Option.map_map]
  rfl

theorem codeStart_outline (object : Object) :
  object.outline.codeStart = object.codeStart
  := by
  rw [codeStart, outline, List.length_map, codeStart]

/-- Every place of a method stands once in the order of the table. -/
theorem methodOrder_perm (object : Object) :
  object.methodOrder.Perm (List.range object.methods.length)
  := List.filter_append_perm ..

theorem filter_eq_filterMap_range (items : List α) (p : α → Bool) :
  items.filter p = ((List.range items.length).filter fun i =>
    (items[i]?.map p).getD false).filterMap (items[·]?)
  := by
  induction items with
  | nil => rfl
  | cons item items ih =>
    rw [List.length_cons, List.range_succ_eq_map, List.filter_cons, List.filter_cons,
      List.filter_map]
    simp only [Function.comp_def, List.getElem?_cons_zero, List.getElem?_cons_succ,
      Option.map_some, Option.getD_some]
    split_ifs
    · rw [List.filterMap_cons, List.filterMap_map, ih]
      rfl
    · rw [List.filterMap_map, ih]
      rfl

/-- The table holds the methods in the order of their places. -/
theorem methodTable_eq (object : Object) :
  object.methodTable = object.methodOrder.filterMap (object.methods[·]?)
  := by
  have hothers : (List.range object.methods.length).filter
        (fun i => (object.methods[i]?.map (!·.isPublic)).getD false)
      = (List.range object.methods.length).filter
        (fun i => !(object.methods[i]?.map (·.isPublic)).getD false) := by
    apply List.filter_congr
    intro i hi
    rw [List.getElem?_eq_getElem (List.mem_range.mp hi)]
    rfl
  rw [methodTable, methodOrder, List.filterMap_append, filter_eq_filterMap_range,
    filter_eq_filterMap_range object.methods (!·.isPublic), hothers]

end Object

namespace Step

section Steady

variable {R : Build → Build → Prop} (hR : Build.Tolerant R) {id : ObjId}

include hR

theorem compileMethod_steady (config : Config) (place : Nat) (base : Int) :
  Steady R (compileMethod config id place base)
  := by
  apply Steady.bind hR (Steady.object hR id)
  intro object
  cases object.methods[place]? with
  | none => apply Steady.pure hR
  | some method => apply Steady.map hR (Steady.evaluateIn hR id _)

theorem warnings_steady (warnings : List (Pos × String)) :
  Steady R (warnings.forM fun (pos, text) => warn id pos text)
  := Steady.forM hR warnings fun _ _ => Steady.warn hR id _ _

theorem compileFrom_steady (hid : Build.Admits R id Object.outline) (config : Config)
    (offset : Nat) (order : List Nat) :
  Steady R (compileFrom config id offset order)
  := by
  induction order generalizing offset with
  | nil => apply Steady.pure hR
  | cons place rest ih =>
    apply Steady.bind hR (Steady.inObject hR (compileMethod_steady hR config place offset))
    intro compiled
    cases compiled with
    | none => apply ih
    | some compiled =>
      apply Steady.bind hR (warnings_steady hR compiled.warnings)
      intro _
      apply Steady.bind hR
      · intro s
        apply hid s
        apply Object.outline_modifyMethod
        intro method
        rfl
      · intro _
        apply ih

theorem compileMethods_steady (hid : Build.Admits R id Object.outline) (config : Config) :
  Steady R (compileMethods config id)
  := by
  apply Steady.bind hR (Steady.object hR id)
  intro object
  apply Steady.bind hR (compileFrom_steady hR hid config _ _)
  intro finish
  apply Steady.bind hR
  · intro s
    apply hid s
    rfl
  · intro _
    apply Steady.pure hR

end Steady

/-- Compiling the method at a place fills it in and goes on behind its code. -/
theorem yields_compileFrom_cons {config : Config} {id : ObjId} {offset place finish : Nat}
    {rest : List Nat} {s s' : Build} (hplace : place < (s.object id).methods.length)
    (h : Yields (compileFrom config id offset (place :: rest)) s finish s') :
  ∃ compiled memo m, Yields ((s.object id).methods[place].compile config (s.site id) offset)
      s.memo compiled memo
    ∧ s.Unchanged m
    ∧ Yields (compileFrom config id (offset + compiled.code.length) rest)
      (m.modifyObject id (·.modifyMethod place fun method =>
        { method with offset, localsSize := compiled.localsSize, code := compiled.code })) finish s'
  := by
  obtain ⟨compiled, m₁, hcompile, hrest⟩ := yields_bind.mp h
  have tolerant := Build.Unchanged.tolerant
  have hquiet :=
    (Steady.inObject tolerant (compileMethod_steady tolerant config place offset)).yields hcompile
  replace hcompile := yields_object_bind.mp (yields_inObject.mp hcompile)
  rw [List.getElem?_eq_getElem hplace] at hcompile
  obtain ⟨compiled, hevaluate, rfl⟩ := yields_map.mp hcompile
  obtain ⟨memo, hmethod, rfl⟩ := yields_evaluateIn.mp hevaluate
  obtain ⟨_, m₂, hwarn, hrest⟩ := yields_bind.mp hrest
  have hquiet' := (warnings_steady tolerant compiled.warnings).yields hwarn
  obtain ⟨_, m₃, hmodify, hrest⟩ := yields_bind.mp hrest
  obtain rfl := yields_modifyObject.mp hmodify
  exact ⟨compiled, memo, m₂, hmethod, hquiet.trans hquiet', hrest⟩

/-- Methods that are compiled one after another stand one behind another. -/
theorem compileFrom_spec {config : Config} {id : ObjId} {offset finish : Nat} {order : List Nat}
    {s s' : Build} (hid : id < s.objects.length) (hnodup : order.Nodup)
    (hplaces : ∀ place ∈ order, place < (s.object id).methods.length)
    (h : Yields (compileFrom config id offset order) s finish s') :
  s.Keeps id Object.outline s'
    ∧ (∀ place, place ∉ order →
      (s'.object id).methods[place]? = (s.object id).methods[place]?)
    ∧ Consecutive offset (order.filterMap ((s'.object id).methods[·]?))
    ∧ finish = offset + ((order.filterMap ((s'.object id).methods[·]?)).flatMap (·.code)).length
    ∧ ∀ place ∈ order, ∀ method, (s'.object id).methods[place]? = some method →
      ∃ m, s.Keeps id Object.outline m ∧ method.FilledIn config m id
  := by
  induction order generalizing offset s with
  | nil =>
    obtain ⟨rfl, rfl⟩ := yields_pure.mp h
    exact ⟨.of_unchanged ⟨rfl, rfl, rfl⟩, fun _ _ => rfl, trivial, rfl, nofun⟩
  | cons place rest ih =>
    obtain ⟨hfresh, hnodup'⟩ := List.nodup_cons.mp hnodup
    have hplace := hplaces place List.mem_cons_self
    obtain ⟨compiled, memo, m, hcompile, hquiet, hrest⟩ := yields_compileFrom_cons hplace h
    have hidm : id < m.objects.length := by
      rwa [hquiet.objects]
    set filled := m.modifyObject id (·.modifyMethod place fun method =>
      { method with offset, localsSize := compiled.localsSize, code := compiled.code }) with hfilled
    have hself : filled.object id = (s.object id).modifyMethod place fun method =>
        { method with offset, localsSize := compiled.localsSize, code := compiled.code } := by
      rw [hfilled, Build.object_modifyObject_self _ hidm, hquiet.object]
    have hstep : s.Keeps id Object.outline filled := by
      refine .trans (.of_unchanged hquiet) (.modifyObject ?_)
      apply Object.outline_modifyMethod
      intro method
      rfl
    have hplaces' : ∀ other ∈ rest, other < (filled.object id).methods.length := by
      intro other hother
      rw [hself, Object.modifyMethod, List.length_modify]
      apply hplaces other (List.mem_cons_of_mem place hother)
    obtain ⟨hkeeps, hothers, hconsecutive, hfinish, horigins⟩ :=
      ih (by rwa [hstep.length]) hnodup' hplaces' hrest
    -- the method just compiled is not touched again
    have hmethod : (s'.object id).methods[place]?
        = some { (s.object id).methods[place] with
            offset, localsSize := compiled.localsSize, code := compiled.code } := by
      rw [hothers place hfresh, hself, Object.modifyMethod, List.getElem?_modify,
        List.getElem?_eq_getElem hplace]
      simp
    refine ⟨hstep.trans hkeeps, ?_, ?_, ?_, ?_⟩
    · intro other hother
      rw [hothers other (fun hmem => hother (List.mem_cons_of_mem place hmem)), hself,
        Object.modifyMethod, List.getElem?_modify_ne]
      rintro rfl
      exact hother List.mem_cons_self
    · rw [List.filterMap_cons, hmethod]
      exact ⟨rfl, hconsecutive⟩
    · rw [List.filterMap_cons, hmethod, List.flatMap_cons, List.length_append, hfinish,
        Nat.add_assoc]
    · intro other hother method hcompiled
      rcases List.mem_cons.mp hother with rfl | hmem
      · rw [hmethod, Option.some_inj] at hcompiled
        subst hcompiled
        exact ⟨s, .of_unchanged ⟨rfl, rfl, rfl⟩, compiled, memo, hcompile, rfl, rfl⟩
      · obtain ⟨origin, horigin, hin⟩ := horigins other hmem method hcompiled
        exact ⟨origin, hstep.trans horigin, hin⟩

/-- Compiling the methods of an object leaves the rest of it alone, and their code stands one behind
another. Each is filled in while no more than what compiling fills in has changed. -/
theorem compileMethods_spec {config : Config} {id : ObjId} {size : Nat} {s s' : Build}
    (hid : id < s.objects.length) (h : Yields (compileMethods config id) s size s') :
  s.Keeps id Object.outline s'
    ∧ Consecutive (s'.object id).codeStart (s'.object id).methodTable
    ∧ (s'.object id).size
      = roundLong ((s'.object id).codeStart
        + ((s'.object id).methodTable.flatMap (·.code)).length)
    ∧ ∀ method ∈ (s'.object id).methods, ∃ origin, s.Keeps id Object.outline origin
      ∧ method.FilledIn config origin id
  := by
  obtain ⟨finish, m, hcompile, hrest⟩ := yields_bind.mp (yields_object_bind.mp h)
  obtain ⟨_, m', hmodify, hpure⟩ := yields_bind.mp hrest
  obtain rfl := yields_modifyObject.mp hmodify
  obtain ⟨rfl, rfl⟩ := yields_pure.mp hpure
  have hperm := (s.object id).methodOrder_perm
  obtain ⟨hkeeps, _, hconsecutive, hfinish, horigins⟩ := compileFrom_spec hid
    (hperm.nodup_iff.mpr List.nodup_range)
    (fun place hplace => List.mem_range.mp (hperm.mem_iff.mp hplace)) hcompile
  have hidm : id < m.objects.length := by
    rwa [hkeeps.length]
  have horder : (m.object id).methodOrder = (s.object id).methodOrder := by
    rw [← Object.methodOrder_outline, hkeeps.self, Object.methodOrder_outline]
  have hstart : (m.object id).codeStart = (s.object id).codeStart := by
    rw [← Object.codeStart_outline, hkeeps.self, Object.codeStart_outline]
  rw [← horder, ← Object.methodTable_eq, ← hstart] at hconsecutive hfinish
  rw [Build.object_modifyObject_self _ hidm]
  refine ⟨hkeeps.trans (.modifyObject rfl), hconsecutive, congrArg roundLong hfinish, ?_⟩
  intro method hmethod
  obtain ⟨place, hplace⟩ := List.mem_iff_getElem?.mp hmethod
  have hlength : (m.object id).methods.length = (s.object id).methods.length := by
    have := congrArg (·.methods.length) hkeeps.self
    simpa only [Object.outline, List.length_map] using this
  have hmem : place ∈ (s.object id).methodOrder := by
    rw [hperm.mem_iff, List.mem_range, ← hlength]
    exact (List.getElem?_eq_some_iff.mp hplace).1
  apply horigins place hmem method hplace

end Step

/-! ### Whole builds -/

theorem Object.Slotted.of_table {object object' : Object} (h : object.Slotted)
    (htable : object'.table = object.table) :
  object'.Slotted
  := by
  simp only [Object.table, Prod.mk.injEq] at htable
  obtain ⟨hsubs, hslots, hheader, hmethods, _⟩ := htable
  apply h.of_indices _ _ hsubs hslots hheader
  · rw [methodTable, hmethods, methodTable]
  · rw [hmethods]

/-- What takes an object's place, and the objects it includes. -/
def Object.links (object : Object) : Option ObjId × List ObjId :=
  (object.replacement, object.subs.map (·.target))

theorem Ranked.of_links {b b' : Build} {rank : ObjId → Nat} (h : Ranked b.objects [] rank)
    (hkeeps : b.Agree Object.links b') :
  Ranked b'.objects [] rank
  := by
  intro id hid hreading
  rw [hkeeps.length] at hid ⊢
  obtain ⟨hrank, htargets⟩ := h id hid hreading
  refine ⟨hrank, ?_⟩
  intro sub hsub
  have hmem : sub.target ∈ (b'.object id).subs.map (·.target) := List.mem_map_of_mem hsub
  have hsubs := congrArg Prod.snd (hkeeps.objects id)
  dsimp only [Object.links] at hsubs
  rw [hsubs] at hmem
  obtain ⟨old, hold, htarget⟩ := List.mem_map.mp hmem
  rw [← htarget]
  apply htargets old hold

namespace Step

/-- Compiling an object whose slots are given out lays it out, and leaves the others alone. -/
theorem compileObject_spec {config : Config} {id : ObjId} {address size : Nat} {s s' : Build}
    (hid : id < s.objects.length) (hslotted : (s.object id).Slotted)
    (hlabels : (s.object id).labels = [])
    (h : Yields (compileObject config id address) s size s') :
  s.Keeps id Object.links s' ∧ (s'.object id).Compiled ∧ s'.Filled config id
  := by
  obtain ⟨_, m₁, haddress, h⟩ := yields_bind.mp h
  obtain ⟨_, m₂, hmeasure, h⟩ := yields_bind.mp h
  obtain ⟨_, m₃, hvars, h⟩ := yields_bind.mp h
  obtain ⟨_, m₄, hwrite, hmethods⟩ := yields_bind.mp h
  obtain rfl := yields_modifyObject.mp haddress
  have hstart : s.Keeps id Object.tableAndLabels
      (s.modifyObject id fun object => { object with hubAddress := address }) :=
    .modifyObject rfl
  obtain ⟨hsections, hrange⟩ := yields_sections hmeasure hvars hwrite
  have htable := (hstart.comp Prod.fst).trans hsections
  have hidm : id < m₄.objects.length := by
    rwa [htable.length]
  obtain ⟨hkeeps, hcode, hsize, hfilled⟩ := compileMethods_spec hidm hmethods
  refine ⟨?_, ?_, ?_⟩
  · apply (htable.comp fun table => (table.2.2.2.2, table.1.map (·.target))).trans
    apply hkeeps.comp fun object => (object.replacement, object.subs.map (·.target))
  · have hslotted' : (m₄.object id).Slotted := hslotted.of_table htable.self
    rw [← Object.slotted_outline, ← hkeeps.self, Object.slotted_outline] at hslotted'
    refine ⟨hslotted', ?_, hcode, hsize⟩
    intro label hlabel
    have hsame : (s'.object id).labels = (m₄.object id).labels :=
      (congrArg Object.labels hkeeps.self :)
    have hheader : (s'.object id).headerSize = (m₄.object id).headerSize :=
      (congrArg Object.headerSize hkeeps.self :)
    have hbytes : (s'.object id).datBytes = (m₄.object id).datBytes :=
      (congrArg Object.datBytes hkeeps.self :)
    rw [hsame] at hlabel
    rw [hheader, hbytes]
    rcases hrange label hlabel with hold | hnew
    · have hnone : ((s.modifyObject id _).object id).labels = (s.object id).labels :=
        (congrArg Prod.snd hstart.self :)
      rw [hnone, hlabels] at hold
      cases hold
    · exact hnew
  · intro method hmethod
    obtain ⟨origin, horigin, hin⟩ := hfilled method hmethod
    exact ⟨origin, horigin.self.trans hkeeps.self.symm, hin⟩

/-- Compiling objects one after another lays out each of them. -/
theorem compileObjects_spec {config : Config} {address : Nat} {ids : List ObjId} {s s' : Build}
    {u : Unit} (hnodup : ids.Nodup)
    (hids : ∀ id ∈ ids, id < s.objects.length ∧ (s.object id).Slotted ∧ (s.object id).labels = [])
    (h : Yields (compileObjects config address ids) s u s') :
  s.KeepsAll Object.links s' ∧ (∀ id, id ∉ ids → s'.object id = s.object id)
    ∧ ∀ id ∈ ids, (s'.object id).Compiled ∧ s'.Filled config id
  := by
  induction ids generalizing address s with
  | nil =>
    obtain ⟨_, rfl⟩ := yields_pure.mp h
    exact ⟨.refl _, fun _ _ => rfl, nofun⟩
  | cons id rest ih =>
    obtain ⟨hfresh, hnodup'⟩ := List.nodup_cons.mp hnodup
    obtain ⟨size, m, hcompile, hrest⟩ := yields_bind.mp h
    obtain ⟨hid, hslotted, hlabels⟩ := hids id List.mem_cons_self
    obtain ⟨hkeeps, hcompiled, hfilled⟩ := compileObject_spec hid hslotted hlabels hcompile
    have hids' : ∀ other ∈ rest, other < m.objects.length ∧ (m.object other).Slotted
        ∧ (m.object other).labels = [] := by
      intro other hother
      have hne : other ≠ id := by
        rintro rfl
        exact hfresh hother
      rw [hkeeps.length, hkeeps.others other hne]
      apply hids other (List.mem_cons_of_mem id hother)
    obtain ⟨hkeeps', hothers, hdone⟩ := ih hnodup' hids' hrest
    refine ⟨(Build.KeepsAll.of_keeps hkeeps).trans hkeeps', fun _ => hkeeps.others_cons hothers, ?_⟩
    intro other hother
    rcases List.mem_cons.mp hother with rfl | hmem
    · rw [Build.Filled, hothers other hfresh]
      exact ⟨hcompiled, hfilled⟩
    · apply hdone other hmem

/-- What giving out slots makes true of an object is true of all objects that are given theirs. -/
theorem placeSlots_spec {p : Object → Prop} {ids : List ObjId} {s s' : Build} {u : PUnit}
    (hp : ∀ {id s s'} {u : Unit}, Yields (do inObject id (placeSubs id); placeMethods id) s u s' →
      id < s.objects.length → p (s'.object id))
    (h : Yields (placeSlots ids) s u s') :
  s.KeepsAll Object.origin s'
    ∧ ∀ id < s.objects.length, p (s.object id) ∨ id ∈ ids → p (s'.object id)
  := by
  induction ids generalizing s with
  | nil =>
    obtain ⟨_, rfl⟩ := yields_pure.mp h
    refine ⟨.refl _, ?_⟩
    rintro id _ (hbefore | hmem)
    · exact hbefore
    · cases hmem
  | cons id rest ih =>
    obtain ⟨_, m, hslots, hrest⟩ := yields_bind.mp h
    have hkeeps := (yields_slots hslots).1
    obtain ⟨hkeeps', hdone⟩ := ih hrest
    refine ⟨(Build.KeepsAll.of_keeps hkeeps).trans hkeeps', ?_⟩
    intro other hother hcases
    apply hdone other (by rwa [hkeeps.length])
    by_cases hsame : other = id
    · left
      rw [hsame] at hother ⊢
      apply hp hslots hother
    · rw [hkeeps.others other hsame]
      rcases hcases with hbefore | hmem
      · left
        exact hbefore
      · right
        apply (List.mem_cons.mp hmem).resolve_left hsame

end Step

/-- What holds of a build whose objects have all been compiled. -/
structure Build.Laid (build : Build) : Prop where
  order : build.order.Perm (List.range build.objects.length)
  nonempty : 0 < build.objects.length
  ranked : ∃ rank, Ranked build.objects [] rank
  compiled : ∀ id < build.objects.length, (build.object id).Compiled
  unlinked : ∀ id, (build.object id).replacement = none
  totals : build.totals = []

/-- The phases of a build fill in all objects of a registered program, and leave alone what they
include. -/
theorem Step.build_filled {config : Config} {s s' : Build} {u : Unit} (hs : s.Registered)
    (h : Yields (build config) s u s') :
  s.KeepsAll Object.links s'
    ∧ ∀ id < s'.objects.length, (s'.object id).Compiled ∧ s'.Filled config id
  := by
  obtain ⟨_, m, hslots, hcompile⟩ := yields_bind.mp (yields_get_bind.mp h)
  obtain ⟨hkeeps, hslotted⟩ := placeSlots_spec (fun h => (yields_slots h).2) hslots
  have hids : ∀ id ∈ s.order, id < m.objects.length ∧ (m.object id).Slotted
      ∧ (m.object id).labels = [] := by
    intro id hid
    have hlabels : (m.object id).labels = (s.object id).labels :=
      congrArg Prod.fst (hkeeps.objects id)
    rw [hkeeps.length, hlabels]
    have hless := hs.mem_order.mp hid
    exact ⟨hless, hslotted id hless (.inr hid), (hs.fresh id).labels⟩
  obtain ⟨hkeeps', _, hcompiled⟩ := compileObjects_spec hs.nodup_order hids hcompile
  have hlinks : s.KeepsAll Object.links s' := (hkeeps.comp Prod.snd).trans hkeeps'
  use hlinks
  intro id hid
  rw [hlinks.length] at hid
  apply hcompiled id (hs.mem_order.mpr hid)

/-- The phases of a build compile all objects of a registered program. -/
theorem Step.build_spec {config : Config} {s s' : Build} {u : Unit} (hs : s.Registered)
    (h : Yields (build config) s u s') :
  s.KeepsAll Object.links s'
    ∧ ∀ id < s'.objects.length, (s'.object id).Compiled ∧ s'.Written config id
  := by
  obtain ⟨hkeeps, hfilled⟩ := build_filled hs h
  use hkeeps
  intro id hid
  obtain ⟨hcompiled, hmethods⟩ := hfilled id hid
  exact ⟨hcompiled, hmethods.written⟩

/-- The phases of a build lay out all objects of a registered program. -/
theorem Step.build_laid {config : Config} {s s' : Build} {u : Unit} (hs : s.Registered)
    (h : Yields (build config) s u s') :
  s'.Laid
  := by
  obtain ⟨hlinks, hcompiled⟩ := build_spec hs h
  obtain ⟨rank, hranked⟩ := hs.ranked
  constructor
  · rw [hlinks.order, hlinks.length]
    exact hs.order
  · rw [hlinks.length]
    exact hs.nonempty
  · use rank
    apply hranked.of_links hlinks.toAgree
  · intro id hid
    apply (hcompiled id hid).1
  · intro id
    have hreplacement : (s'.object id).replacement = (s.object id).replacement :=
      congrArg Prod.fst (hlinks.objects id)
    rw [hreplacement]
    apply (hs.fresh id).replacement
  · rw [hlinks.totals]
    exact hs.totals

end SpinHub
