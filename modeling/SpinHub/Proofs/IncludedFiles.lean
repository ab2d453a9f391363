import Mathlib
import SpinHub.Proofs.Registered

/-!
# Included files

The files of a program include one another, and a file is known by its key. Whatever registration
has read so far belongs to the program: the objects are different files that are reached from the
root, each as its source declares it, and the sub-objects of complete objects lead to the objects
of their files.
-/

namespace SpinHub

/-! ### Files -/

namespace FileName

/-- The stem of a name with the extension is the name without. -/
theorem stem?_append (name : String) :
  stem? (name ++ ".spin") = some name
  := by
  have hlength : (name ++ ".spin").toList.length - 5 = name.toList.length := by
    rw [String.toList_append, List.length_append]
    rfl
  have hdrop : (name ++ ".spin").toList.drop name.toList.length = ".spin".toList := by
    rw [String.toList_append, List.drop_left]
  have htake : (name ++ ".spin").toList.take name.toList.length = name.toList := by
    rw [String.toList_append, List.take_left]
  have hkey : nameKey (String.ofList ".spin".toList) = ".SPIN" := by
    decide +kernel
  rw [stem?, hlength, hdrop, htake, if_pos hkey, String.ofList_toList]

/-- A name that has the extension is normal. -/
theorem normalize_of_stem {name stem : String} (h : stem? name = some stem) :
  normalize name = name
  := by
  delta normalize
  rw [h]

/-- The extension is added at most once. -/
theorem normalize_normalize (name : String) :
  normalize (normalize name) = normalize name
  := by
  cases hstem : stem? name with
  | some stem => rw [normalize_of_stem hstem, normalize_of_stem hstem]
  | none =>
    have hname : normalize name = name ++ ".spin" := by
      delta normalize
      rw [hstem]
    rw [hname, normalize_of_stem (stem?_append name)]

/-- A name has the key of its normal form. -/
theorem key_normalize (name : String) :
  key (normalize name) = key name
  := congrArg nameKey (normalize_normalize name)

end FileName

/-- The key of the file that an object was read from. -/
def Object.fileKey (object : Object) : String := nameKey object.file

namespace Program

/-- The source of a file, the last one if several have its key. -/
def source? (program : Program) (file : String) : Option SourceObject :=
  program.objects.reverse.find? fun source => FileName.key source.file = file

/-- A source that is found under a key has that key. -/
theorem key_of_source? {program : Program} {file : String} {source : SourceObject}
    (h : program.source? file = some source) :
  FileName.key source.file = file
  := by
  have hkey := List.find?_some h
  exact of_decide_eq_true hkey

/-- One file includes another, both by their keys. -/
def Includes (program : Program) (file included : String) : Prop :=
  ∃ source, program.source? file = some source
    ∧ ∃ decl ∈ source.objs, FileName.key decl.file.name = included

/-- A file is the root or is included through a chain of files. -/
def Reaches (program : Program) (file : String) : Prop :=
  Relation.ReflTransGen program.Includes (FileName.key program.root) file

end Program

/-! ### Objects and their sources -/

namespace Object

/-- The object of a file has no targets yet. -/
theorem ofSource_untargeted {source : SourceObject} {object : Object}
    (h : ofSource source = .ok object) :
  object.untargeted = object
  := by
  have hsubs : object.subs = source.objs.map subOf := (congrArg Object.subs (ofSource_spec h) :)
  have hsame : (object.subs.map fun sub => { sub with target := 0 }) = object.subs := by
    rw [hsubs, List.map_map]
    rfl
  rw [untargeted, hsame]

section Source

variable {source : SourceObject} {object : Object}
  (h : ofSource source = .ok object.untargeted)

include h

/-- The object of a file is known by the key of the file. -/
theorem fileKey_ofSource :
  object.fileKey = FileName.key source.file
  := by
  have hfile := congrArg Object.file (ofSource_spec h)
  dsimp only [unnamed, untargeted] at hfile
  rw [fileKey, hfile, FileName.key]

/-- The files of sub-objects are those that the source names. -/
theorem subs_ofSource :
  object.subs.map (fun sub => FileName.key sub.file.name)
    = source.objs.map fun decl => FileName.key decl.file.name
  := by
  have hsubs : object.untargeted.subs = source.objs.map subOf :=
    (congrArg Object.subs (ofSource_spec h) :)
  have hsame : object.subs.map (fun sub => FileName.key sub.file.name)
      = object.untargeted.subs.map fun sub => FileName.key sub.file.name := by
    rw [untargeted, List.map_map, Function.comp_def]
  rw [hsame, hsubs, List.map_map, Function.comp_def]
  simp only [subOf, FileName.key_normalize]

theorem methods_ofSource :
  object.methods = source.methods.map methodOf
  := (congrArg Object.methods (ofSource_spec h) :)

/-- An object has a public method if its source has one. -/
theorem firstPublic_ofSource :
  object.firstPublic?.isSome ↔ ∃ method ∈ source.methods, method.isPublic
  := by
  rw [firstPublic?, List.find?_isSome, methods_ofSource h]
  constructor
  · rintro ⟨_, hmem, hpublic⟩
    obtain ⟨method, hmethod, rfl⟩ := List.mem_map.mp hmem
    exact ⟨method, hmethod, hpublic⟩
  · rintro ⟨method, hmethod, hpublic⟩
    exact ⟨methodOf method, List.mem_map_of_mem hmethod, hpublic⟩

end Source

end Object

/-- A file that has an object includes exactly the files of the object's sub-objects. -/
theorem Program.includes_iff {program : Program} {source : SourceObject} {object : Object}
    (hsource : program.source? object.fileKey = some source)
    (h : Object.ofSource source = .ok object.untargeted) {included : String} :
  program.Includes object.fileKey included
    ↔ ∃ sub ∈ object.subs, FileName.key sub.file.name = included
  := by
  rw [← List.mem_map, Object.subs_ofSource h, List.mem_map, Includes]
  constructor
  · rintro ⟨source', hsource', hdecl⟩
    rw [hsource, Option.some_inj] at hsource'
    rwa [hsource']
  · intro hdecl
    use source, hsource

/-! ### Registrations and the program -/

namespace Registration

/-- The keys of the files that have been opened. -/
def files (s : Registration) : List String := s.objects.map Object.fileKey

/-- What a registration has to do with the program: the sources of the files that have not been
opened are left, the objects are distinct files that are reached, as declared, and complete objects
have a public method and sub-objects that lead to their files. -/
structure Traced (program : Program) (s : Registration) : Prop where
  sources : s.sources = program.objects.filter fun source => FileName.key source.file ∉ s.files
  distinct : s.files.Nodup
  declared : ∀ id < s.objects.length, ∃ source,
    program.source? (objectAt s.objects id).fileKey = some source
      ∧ Object.ofSource source = .ok (objectAt s.objects id).untargeted
  reached : ∀ id < s.objects.length, program.Reaches (objectAt s.objects id).fileKey
  targets : ∀ id, s.Complete id → ∀ sub ∈ (objectAt s.objects id).subs,
    (objectAt s.objects sub.target).fileKey = FileName.key sub.file.name
  entry : ∀ id, s.Complete id → (objectAt s.objects id).firstPublic?.isSome

/-- A file has no number exactly if it was not read. -/
theorem fileId?_eq_none_iff {s : Registration} {file : String} :
  fileId? s.objects file = none ↔ file ∉ s.files
  := by
  rw [fileId?, List.findIdx?_eq_none_iff, files, List.mem_map]
  constructor
  · rintro h ⟨object, hobject, hfile⟩
    exact of_decide_eq_false (h object hobject) hfile
  · intro h object hobject
    apply decide_eq_false
    intro hfile
    exact h ⟨object, hobject, hfile⟩

/-- The number of a file leads to the object of that file. -/
theorem fileKey_of_fileId? {s : Registration} {file : String} {id : ObjId}
    (h : fileId? s.objects file = some id) :
  (objectAt s.objects id).fileKey = file
  := by
  obtain ⟨hid, hfile, _⟩ := List.findIdx?_eq_some_iff_getElem.mp h
  rw [objectAt, List.getElem?_eq_getElem hid]
  exact of_decide_eq_true hfile

theorem length_setTarget (s : Registration) (id : ObjId) (index : Nat) (target : ObjId) :
  (s.setTarget id index target).objects.length = s.objects.length
  := List.length_modify ..

/-- Targets do not change which files were read. -/
theorem files_setTarget (s : Registration) (id : ObjId) (index : Nat) (target : ObjId) :
  (s.setTarget id index target).files = s.files
  := by
  apply map_modify_of_eq
  intro object
  rfl

theorem untargeted_setTarget (s : Registration) (id : ObjId) (index : Nat) (target other : ObjId) :
  (objectAt (s.setTarget id index target).objects other).untargeted
    = (objectAt s.objects other).untargeted
  := by
  by_cases hother : other < s.objects.length
  · by_cases heq : id = other
    · subst heq
      rw [setTarget, objectAt_modify_self _ hother]
      apply Object.untargeted_withTarget
    · rw [setTarget, objectAt_modify_ne _ heq]
  · rw [objectAt_of_le (Nat.le_of_not_lt hother), objectAt_of_le]
    rw [length_setTarget]
    exact Nat.le_of_not_lt hother

namespace Traced

variable {program : Program} {s : Registration}

/-- The source of a file that has not been opened is that of the program. -/
theorem source?_eq (h : Traced program s) {name : String}
    (hnew : FileName.key name ∉ s.files) :
  s.source? name = program.source? (FileName.key name)
  := by
  rw [Registration.source?, h.sources, ← List.filter_reverse, List.find?_filter, Program.source?]
  apply congrArg (List.find? · program.objects.reverse)
  funext source
  by_cases heq : FileName.key source.file = FileName.key name
  · simp only [heq, hnew, not_false_eq_true, decide_true, and_self]
  · simp only [heq, decide_false, Bool.false_eq_true, and_false]

/-- A file includes those that the sub-objects of its object name. -/
theorem includes_iff (h : Traced program s) {id : ObjId} (hid : id < s.objects.length)
    {included : String} :
  program.Includes (objectAt s.objects id).fileKey included
    ↔ ∃ sub ∈ (objectAt s.objects id).subs, FileName.key sub.file.name = included
  := by
  obtain ⟨source, hsource, hobject⟩ := h.declared id hid
  apply Program.includes_iff hsource hobject

/-- The more files have been opened, the fewer sources are left. -/
theorem sources_length_le {t : Registration} (h : Traced program s) (ht : Traced program t)
    (hfiles : ∀ file ∈ s.files, file ∈ t.files) :
  t.sources.length ≤ s.sources.length
  := by
  rw [h.sources, ht.sources]
  apply List.Sublist.length_le
  apply List.monotone_filter_right
  intro source
  simp only [decide_not, Bool.not_eq_true', decide_eq_false_iff_not]
  intro hleft hopened
  apply hleft (hfiles _ hopened)

/-- Only the order has changed. -/
theorem of_order (h : Traced program s) (order : List ObjId) :
  Traced program { s with order }
  := ⟨h.sources, h.distinct, h.declared, h.reached, h.targets, h.entry⟩

/-- Giving a sub-object its target keeps the state traced. -/
theorem setTarget (h : Traced program s) {id : ObjId} (hid : id ∈ s.reading) (index : Nat)
    (target : ObjId) :
  Traced program (s.setTarget id index target)
  := by
  have hkey (other : ObjId) : (objectAt (s.setTarget id index target).objects other).fileKey
      = (objectAt s.objects other).fileKey :=
    (congrArg Object.fileKey (untargeted_setTarget s id index target other) :)
  -- a complete object is another one
  have hobject (other : ObjId) (hcomplete : (s.setTarget id index target).Complete other) :
      objectAt (s.setTarget id index target).objects other = objectAt s.objects other := by
    rw [Registration.setTarget, objectAt_modify_ne]
    rintro rfl
    apply hcomplete.2 hid
  have hold (other : ObjId) (hcomplete : (s.setTarget id index target).Complete other) :
      s.Complete other := by
    refine ⟨?_, hcomplete.2⟩
    rw [← length_setTarget s id index target]
    exact hcomplete.1
  constructor
  · rw [files_setTarget]
    exact h.sources
  · rw [files_setTarget]
    exact h.distinct
  · rw [length_setTarget]
    intro other hlt
    rw [hkey, untargeted_setTarget]
    apply h.declared other hlt
  · rw [length_setTarget]
    intro other hlt
    rw [hkey]
    apply h.reached other hlt
  · intro other hcomplete sub hsub
    rw [hobject other hcomplete] at hsub
    rw [hkey]
    apply h.targets other (hold other hcomplete) sub hsub
  · intro other hcomplete
    rw [hobject other hcomplete]
    apply h.entry other (hold other hcomplete)

/-- The object of an opened file is known by the key it was asked for. -/
theorem fileKey_opened (h : Traced program s) {name : String} {source : SourceObject}
    {object : Object} (hnew : FileName.key name ∉ s.files) (hsource : s.source? name = some source)
    (hobject : Object.ofSource source = .ok object) :
  object.fileKey = FileName.key name
  := by
  rw [h.source?_eq hnew] at hsource
  rw [← Object.ofSource_untargeted hobject] at hobject
  rw [Object.fileKey_ofSource hobject, Program.key_of_source? hsource]

/-- The state in which the includes of a newly opened file are read. -/
theorem addObject (h : Traced program s) (hs : s.Valid) {name : String} {source : SourceObject}
    {object : Object} (hnew : FileName.key name ∉ s.files)
    (hreached : program.Reaches (FileName.key name)) (hsource : s.source? name = some source)
    (hobject : Object.ofSource source = .ok object) :
  Traced program ((s.dropSource name).addObject object)
  := by
  have hkey := h.fileKey_opened hnew hsource hobject
  rw [h.source?_eq hnew] at hsource
  rw [← Object.ofSource_untargeted hobject] at hobject
  have hfiles : ((s.dropSource name).addObject object).files = s.files ++ [FileName.key name] := by
    rw [← hkey]
    exact List.map_append
  have hlast : objectAt ((s.dropSource name).addObject object).objects s.objects.length = object :=
    Registering.objectAt_concat s.objects object
  have hold {id : ObjId} (hid : id < s.objects.length) :
      objectAt ((s.dropSource name).addObject object).objects id = objectAt s.objects id :=
    Registering.objectAt_append_left hid
  have hlength : ((s.dropSource name).addObject object).objects.length = s.objects.length + 1 :=
    List.length_append
  have hcomplete {id : ObjId} (hid : ((s.dropSource name).addObject object).Complete id) :
      s.Complete id := by
    obtain ⟨hlt, hreading⟩ := hid
    have hne : id ≠ s.objects.length := List.ne_of_not_mem_cons hreading
    rw [hlength] at hlt
    exact ⟨Nat.lt_of_le_of_ne (Nat.lt_succ_iff.mp hlt) hne,
      List.not_mem_of_not_mem_cons hreading⟩
  constructor
  · rw [hfiles]
    show s.sources.filter _ = _
    rw [h.sources, List.filter_filter]
    apply List.filter_congr
    intro source _
    simp only [List.mem_append, List.mem_singleton, not_or, Bool.decide_and, Bool.and_comm, ne_eq]
  · rw [hfiles, ← List.concat_eq_append]
    apply h.distinct.concat hnew
  · rw [hlength]
    intro id hid
    rcases Nat.lt_succ_iff_lt_or_eq.mp hid with hlt | rfl
    · rw [hold hlt]
      apply h.declared id hlt
    · rw [hlast, hkey]
      exact ⟨source, hsource, hobject⟩
  · rw [hlength]
    intro id hid
    rcases Nat.lt_succ_iff_lt_or_eq.mp hid with hlt | rfl
    · rw [hold hlt]
      apply h.reached id hlt
    · rwa [hlast, hkey]
  · intro id hid sub hsub
    rw [hold (hcomplete hid).1] at hsub
    have hmem : sub.target ∈ s.family id :=
      List.mem_cons_of_mem id (List.mem_map_of_mem hsub)
    rw [hold (hs.family_complete (hcomplete hid) _ hmem).1]
    apply h.targets id (hcomplete hid) sub hsub
  · intro id hid
    rw [hold (hcomplete hid).1]
    apply h.entry id (hcomplete hid)

/-- The state in which the innermost object is complete. -/
theorem finish (h : Traced program s) {id : ObjId} {reading : List ObjId}
    (hreading : s.reading = id :: reading)
    (htargets : ∀ sub ∈ (objectAt s.objects id).subs,
      (objectAt s.objects sub.target).fileKey = FileName.key sub.file.name)
    (hentry : (objectAt s.objects id).firstPublic?.isSome) :
  Traced program { s with reading := s.reading.drop 1 }
  := by
  have hcomplete {other : ObjId} (hne : other ≠ id)
      (hother : Complete { s with reading := s.reading.drop 1 } other) : s.Complete other := by
    obtain ⟨hlt, hread⟩ := hother
    refine ⟨hlt, ?_⟩
    rw [hreading]
    apply List.not_mem_cons_of_ne_of_not_mem hne
    rwa [hreading] at hread
  refine ⟨h.sources, h.distinct, h.declared, h.reached, ?_, ?_⟩
  · intro other hother
    by_cases heq : other = id
    · rwa [heq]
    · apply h.targets other (hcomplete heq hother)
  · intro other hother
    by_cases heq : other = id
    · rwa [heq]
    · apply h.entry other (hcomplete heq hother)

end Traced

end Registration

/-! ### What is read belongs to the program -/

/-- Objects that differ in targets only name the same files. -/
theorem Object.file_of_untargeted {object object' : Object}
    (h : object.untargeted = object'.untargeted) {i : Nat} {sub sub' : SubObject}
    (hsub : object.subs[i]? = some sub) (hsub' : object'.subs[i]? = some sub') :
  sub.file = sub'.file
  := by
  have hfile := congrArg (fun object => object.subs[i]?.map (·.file)) h
  dsimp only [untargeted] at hfile
  rw [List.getElem?_map, List.getElem?_map, hsub, hsub'] at hfile
  exact Option.some_inj.mp hfile

namespace Registering

open Registration

variable {program : Program} {read : Ident → Registering ObjId} {file : Ident}
  {source : SourceObject} {object : Object} {id : ObjId} {s m : Registration}

/-- Reading one file of the program gives the object of the file. -/
def TracesFiles (program : Program) (read : Ident → Registering ObjId) : Prop :=
  ∀ {file s id s'}, s.Valid → Traced program s → program.Reaches (FileName.key file.name) →
    Reads (read file) s id s' →
    Traced program s' ∧ (objectAt s'.objects id).fileKey = FileName.key file.name

/-- The state in which the first `index` sub-objects of object `id` lead to their files. -/
structure TracedUpTo (program : Program) (start : Registration) (id : ObjId) (index : Nat)
    (s : Registration) : Prop where
  upTo : ReadUpTo start id index s
  traced : Traced program s
  leads : ∀ i sub, i < index → (objectAt s.objects id).subs[i]? = some sub →
    (objectAt s.objects sub.target).fileKey = FileName.key sub.file.name

/-- One more sub-object has been traced to its file. -/
theorem TracedUpTo.next {start : Registration} {target : ObjId} {index : Nat} {sub : SubObject}
    (h : TracedUpTo program start id index s) (hid : id ∈ start.reading)
    (hsub : (objectAt start.objects id).subs[index]? = some sub) (hm : m.Valid)
    (hext : s.Extends m) (htarget : m.Complete target) (htraced : Traced program m)
    (hkey : (objectAt m.objects target).fileKey = FileName.key sub.file.name) :
  TracedUpTo program start id (index + 1) (m.setTarget id index target)
  := by
  have hidm : id ∈ m.reading := by
    rwa [hext.reading, h.upTo.reading]
  refine ⟨h.upTo.next hid hm hext htarget, htraced.setTarget hidm index target, ?_⟩
  intro i next hi hnext
  have hsame : (objectAt (m.setTarget id index target).objects next.target).fileKey
      = (objectAt m.objects next.target).fileKey :=
    (congrArg Object.fileKey (untargeted_setTarget m id index target next.target) :)
  rw [h.upTo.object_setTarget hid hm hext, Object.withTarget, List.getElem?_modify] at hnext
  obtain ⟨old, hold, rfl⟩ := Option.map_eq_some_iff.mp hnext
  rw [hsame]
  by_cases heq : index = i
  · subst heq
    rw [if_pos rfl]
    rw [hkey, Object.file_of_untargeted h.upTo.self.symm hsub hold]
  · rw [if_neg heq]
    have hlt : i < index := by omega
    rw [hext.object _ (h.upTo.targets i old hlt hold).1]
    apply h.leads i old hlt hold

/-- Reading the sub-objects of an object traces each to its file. -/
theorem readSubs_traced (hread : ReadsFiles read) (htraces : TracesFiles program read)
    {display : String} {subs : List SubObject} {s' : Registration} {u : Unit} (hs : s.Valid)
    (ht : Traced program s) (hid : id ∈ s.reading) (hsubs : (objectAt s.objects id).subs = subs)
    (h : Reads (readSubs read id display subs 0) s u s') :
  TracedUpTo program s id subs.length s'
  := by
  have hstart : TracedUpTo program s id 0 s :=
    ⟨ReadUpTo.zero hs id, ht, fun i _ hi => absurd hi (Nat.not_lt_zero i)⟩
  apply readSubs_invariant [] _ hstart h
  intro i sub t target m hsub ht' hfile
  rw [List.nil_append, ← hsubs] at hsub
  have hlt := hs.reading id hid
  have hincludes : program.Includes (objectAt s.objects id).fileKey (FileName.key sub.file.name) :=
    (ht.includes_iff hlt).mpr ⟨sub, List.mem_of_getElem? hsub, rfl⟩
  obtain ⟨hm, hext, htarget⟩ := hread ht'.upTo.valid hfile
  obtain ⟨htraced, hkey⟩ :=
    htraces ht'.upTo.valid ht'.traced ((ht.reached id hlt).tail hincludes) hfile
  exact ht'.next hid hsub hm hext htarget htraced hkey

namespace Opens

variable (h : Opens read file s source object m) (hs : s.Valid) (ht : Traced program s)
  (hreached : program.Reaches (FileName.key file.name))

include h hs ht hreached

/-- The state in which the includes of the new object are read. -/
theorem start_traced :
  Traced program ((s.dropSource file.name).addObject object)
  := ht.addObject hs (fileId?_eq_none_iff.mp h.unread) hreached h.found h.declared

/-- Behind an opened file all its sub-objects have been traced. -/
theorem tracedUpTo (hread : ReadsFiles read) (htraces : TracesFiles program read) :
  TracedUpTo program ((s.dropSource file.name).addObject object) s.objects.length
    object.subs.length m
  := by
  have hlast := congrArg Object.subs (objectAt_addObject s file.name object)
  exact readSubs_traced hread htraces (h.start_valid hs) (h.start_traced hs ht hreached)
    List.mem_cons_self hlast h.subs

/-- Opening a file of the program gives the object of the file. -/
theorem finish_traced (hread : ReadsFiles read) (htraces : TracesFiles program read) :
  Traced program { m with reading := m.reading.drop 1 }
    ∧ (objectAt m.objects s.objects.length).fileKey = FileName.key file.name
  := by
  have hdone := h.tracedUpTo hs ht hreached hread htraces
  have hreading : m.reading = s.objects.length :: s.reading := hdone.upTo.reading
  have hself := hdone.upTo.self
  rw [objectAt_addObject] at hself
  constructor
  · apply hdone.traced.finish hreading
    · intro sub hsub
      obtain ⟨i, hi⟩ := List.mem_iff_getElem?.mp hsub
      apply hdone.leads i sub _ hi
      rw [← Object.length_subs_of_untargeted hself]
      exact (List.getElem?_eq_some_iff.mp hi).1
    · have hentry : (objectAt m.objects s.objects.length).firstPublic? = object.firstPublic? :=
        (congrArg Object.firstPublic? hself :)
      rw [hentry]
      exact h.entry
  · have hkey : (objectAt m.objects s.objects.length).fileKey = object.fileKey :=
      (congrArg Object.fileKey hself :)
    rw [hkey, ht.fileKey_opened (fileId?_eq_none_iff.mp h.unread) h.found h.declared]

end Opens

/-- All that is read belongs to the program. -/
theorem read_traces (program : Program) (depth : Nat) :
  TracesFiles program (Registering.read depth)
  := by
  induction depth with
  | zero =>
    intro file s id s' hs ht hreached h
    rcases reads_read h with hagain | ⟨lower, _, _, _, hdepth, _⟩
    · obtain ⟨hfile, _, _, _, order, rfl⟩ := again_spec hs hagain
      exact ⟨ht.of_order order, fileKey_of_fileId? hfile⟩
    · cases hdepth
  | succ depth ih =>
    intro file s id s' hs ht hreached h
    rcases reads_read h with hagain | ⟨lower, source, object, m, hdepth, hopens, rfl, rfl⟩
    · obtain ⟨hfile, _, _, _, order, rfl⟩ := again_spec hs hagain
      exact ⟨ht.of_order order, fileKey_of_fileId? hfile⟩
    · cases hdepth
      exact hopens.finish_traced hs ht hreached (read_spec depth) ih

end Registering

end SpinHub
