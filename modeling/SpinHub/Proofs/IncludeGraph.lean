import Mathlib
import SpinHub.Proofs.IncludedFiles

/-!
# Include graphs

Registration accepts a program exactly if all files that are reached from the root are present,
declare distinct names and have a public method, and no file includes itself through a chain of
files. The objects of the build are then the files that are reached, each once, and every
sub-object leads to the object of its file.
-/

namespace SpinHub

namespace Program

/-- What is asked of the files that are reached. -/
structure WellFormed (program : Program) : Prop where
  present : ∀ file, program.Reaches file → ∃ source, program.source? file = some source
  distinct : ∀ file source, program.Reaches file → program.source? file = some source →
    source.declaredKeys.Nodup
  acyclic : ∀ file, program.Reaches file → ¬ Relation.TransGen program.Includes file file
  entry : ∀ file source, program.Reaches file → program.source? file = some source →
    ∃ method ∈ source.methods, method.isPublic

/-- The build of a program: its objects are the files that are reached, each once and as its source
declares it, and sub-objects lead to the objects of their files. Every object stands once in the
order, and the root stands first. -/
structure Builds (program : Program) (build : Build) : Prop where
  distinct : (build.objects.map Object.fileKey).Nodup
  reached : ∀ file, file ∈ build.objects.map Object.fileKey ↔ program.Reaches file
  declared : ∀ id < build.objects.length, ∃ source,
    program.source? (build.object id).fileKey = some source
      ∧ Object.ofSource source = .ok (build.object id).untargeted
  targets : ∀ id < build.objects.length, ∀ sub ∈ (build.object id).subs,
    sub.target < build.objects.length
      ∧ (build.object sub.target).fileKey = FileName.key sub.file.name
  root : (build.object Build.root).fileKey = FileName.key program.root
  entry : ∀ id < build.objects.length, (build.object id).firstPublic?.isSome
  order : build.order.Perm (List.range build.objects.length)
  first : build.order.head? = some Build.root

end Program

theorem mem_fileKeys {objects : List Object} {file : String} :
  file ∈ objects.map Object.fileKey
    ↔ ∃ id < objects.length, (objectAt objects id).fileKey = file
  := by
  rw [List.mem_map]
  constructor
  · rintro ⟨object, hobject, hfile⟩
    obtain ⟨id, hid, rfl⟩ := List.mem_iff_getElem.mp hobject
    refine ⟨id, hid, ?_⟩
    rwa [objectAt, List.getElem?_eq_getElem hid]
  · rintro ⟨id, hid, hfile⟩
    rw [objectAt, List.getElem?_eq_getElem hid] at hfile
    exact ⟨objects[id], List.getElem_mem hid, hfile⟩

/-! ### Well-formed programs are read -/

namespace Registering

open Registration

variable {program : Program} {read : Ident → Registering ObjId} {file : Ident}
  {source : SourceObject} {object : Object} {id : ObjId} {s m : Registration}

theorem readSubs_exists {display : String} {holds : Nat → Registration → Prop}
    {subs : List SubObject} (done : List SubObject)
    (hstep : ∀ i sub s, (done ++ subs)[i]? = some sub → holds i s →
      ∃ target m, Reads (read sub.file) s target m ∧ holds (i + 1) (m.setTarget id i target))
    (hs : holds done.length s) :
  ∃ s', Reads (readSubs read id display subs done.length) s () s'
  := by
  induction subs generalizing done s with
  | nil => exact ⟨s, rfl⟩
  | cons sub subs ih =>
    have hplace : (done ++ sub :: subs)[done.length]? = some sub := by
      rw [List.getElem?_append_right le_rfl, Nat.sub_self, List.getElem?_cons_zero]
    obtain ⟨target, m, hfile, hnext⟩ := hstep done.length sub s hplace hs
    rw [← List.singleton_append, ← List.append_assoc] at hstep
    have hlength : (done ++ [sub]).length = done.length + 1 := List.length_append
    rw [← hlength] at hnext
    obtain ⟨s', hrest⟩ := ih (done ++ [sub]) hstep hnext
    rw [hlength] at hrest
    have hmodify : Reads (modify (·.setTarget id done.length target)) m ()
        (m.setTarget id done.length target) := rfl
    exact ⟨s', hfile.inFile.bind (hmodify.bind hrest)⟩

theorem ReadUpTo.fileKey {start : Registration} {index : Nat} (h : ReadUpTo start id index s)
    {other : ObjId} (hother : other < start.objects.length) :
  (objectAt s.objects other).fileKey = (objectAt start.objects other).fileKey
  := by
  by_cases heq : other = id
  · subst heq
    exact (congrArg Object.fileKey h.self :)
  · rw [h.others other hother heq]

theorem ReadUpTo.files {start : Registration} {index : Nat} (h : ReadUpTo start id index s) :
  ∀ file ∈ start.files, file ∈ s.files
  := by
  intro file hfile
  obtain ⟨other, hother, rfl⟩ := mem_fileKeys.mp hfile
  exact mem_fileKeys.mpr ⟨other, hother.trans_le h.length, h.fileKey hother⟩

/-- Every file that is being read leads to `file`. -/
def LeadsTo (program : Program) (s : Registration) (file : String) : Prop :=
  ∀ id ∈ s.reading, Relation.TransGen program.Includes (objectAt s.objects id).fileKey file

/-- A file that was opened before is complete, or it would include itself. -/
theorem again_exists (hform : program.WellFormed) (hs : s.Valid)
    (hreached : program.Reaches (FileName.key file.name))
    (hleads : LeadsTo program s (FileName.key file.name))
    (hfile : fileId? s.objects (FileName.key file.name) = some id) :
  ∃ s', Reads (again? file) s (some id) s'
  := by
  have hcomplete : s.Complete id := by
    refine ⟨(List.findIdx?_eq_some_iff_getElem.mp hfile).1, ?_⟩
    intro hreading
    have hcycle := hleads id hreading
    rw [fileKey_of_fileId? hfile] at hcycle
    apply hform.acyclic _ hreached hcycle
  refine ⟨s.moveAll (s.family id), (reads_again_some hfile).mpr ⟨rfl, ?_, rfl⟩⟩
  intro other hother
  apply (hs.family_complete hcomplete other hother).2

/-- While the includes of a new object are read, the files that are being read lead to them. -/
theorem ReadUpTo.leadsTo {index : Nat} {included : String}
    (h : ReadUpTo ((s.dropSource file.name).addObject object) s.objects.length index m)
    (hs : s.Valid) (hleads : LeadsTo program s (FileName.key file.name))
    (hkey : object.fileKey = FileName.key file.name)
    (hincludes : program.Includes (FileName.key file.name) included) :
  LeadsTo program m included
  := by
  intro id hid
  rw [h.reading] at hid
  have hlength : ((s.dropSource file.name).addObject object).objects.length
      = s.objects.length + 1 := List.length_append
  rcases List.mem_cons.mp hid with rfl | hmem
  · apply Relation.TransGen.single
    have hlast := h.fileKey (by rw [hlength]; exact Nat.lt_succ_self s.objects.length)
    rw [objectAt_addObject, hkey] at hlast
    exact hlast ▸ hincludes
  · have hlt := hs.reading id hmem
    have hold : objectAt ((s.dropSource file.name).addObject object).objects id
        = objectAt s.objects id := objectAt_append_left hlt
    rw [h.fileKey (by rw [hlength]; exact Nat.lt_succ_of_lt hlt), hold]
    apply (hleads id hmem).tail hincludes

theorem length_dropSource_lt {name : String} (h : s.source? name = some source) :
  (s.dropSource name).sources.length < s.sources.length
  := by
  have hkey := List.find?_some h
  apply List.length_filter_lt_length_iff_exists.mpr
  refine ⟨source, List.mem_reverse.mp (List.mem_of_find?_eq_some h), ?_⟩
  simpa using hkey

/-- Every file that is reached can be read from where it closes no circle, with one level of depth
for every source. -/
def ReadsReached (program : Program) (depth : Nat) : Prop :=
  ∀ {file s}, s.Valid → Traced program s → program.Reaches (FileName.key file.name) →
    s.sources.length ≤ depth → LeadsTo program s (FileName.key file.name) →
    ∃ id s', Reads (Registering.read depth file) s id s'

section Open

variable {depth : Nat} (hread : ReadsReached program depth) (hs : s.Valid)
  (ht : Traced program s) (hreached : program.Reaches (FileName.key file.name))
  (hdepth : s.sources.length ≤ depth + 1) (hleads : LeadsTo program s (FileName.key file.name))
  (hunread : fileId? s.objects (FileName.key file.name) = none)
  (hfound : s.source? file.name = some source) (hobject : Object.ofSource source = .ok object)

include hread hs ht hreached hdepth hleads hunread hfound hobject

/-- The next file that a new object includes can be read. -/
theorem readNext_exists {i : Nat} {sub : SubObject} (hsub : object.subs[i]? = some sub)
    (h : TracedUpTo program ((s.dropSource file.name).addObject object) s.objects.length i m) :
  ∃ target m', Reads (Registering.read depth sub.file) m target m'
    ∧ TracedUpTo program ((s.dropSource file.name).addObject object) s.objects.length (i + 1)
      (m'.setTarget s.objects.length i target)
  := by
  have hnew := fileId?_eq_none_iff.mp hunread
  have hstart := ht.addObject hs hnew hreached hfound hobject
  have hkey := Traced.fileKey_opened ht hnew hfound hobject
  have hincludes : program.Includes (FileName.key file.name) (FileName.key sub.file.name) := by
    rw [ht.source?_eq hnew, ← hkey] at hfound
    rw [← Object.ofSource_untargeted hobject] at hobject
    rw [← hkey]
    exact (Program.includes_iff hfound hobject).mpr ⟨sub, List.mem_of_getElem? hsub, rfl⟩
  have hfew : m.sources.length ≤ depth := by
    have hle := hstart.sources_length_le h.traced h.upTo.files
    have hlt := length_dropSource_lt hfound
    have hsame : ((s.dropSource file.name).addObject object).sources.length
        = (s.dropSource file.name).sources.length := rfl
    omega
  have hvalid := h.upTo.valid
  have hsubReached := hreached.tail hincludes
  obtain ⟨target, m', hfile⟩ := hread hvalid h.traced hsubReached hfew
    (h.upTo.leadsTo hs hleads hkey hincludes)
  obtain ⟨hm', hext, htarget⟩ := read_spec depth hvalid hfile
  obtain ⟨htraced, htargetKey⟩ := read_traces program depth hvalid h.traced hsubReached hfile
  refine ⟨target, m', hfile, h.next List.mem_cons_self ?_ hm' hext htarget htraced htargetKey⟩
  rw [objectAt_addObject]
  exact hsub

/-- All that a new object includes can be read. -/
theorem includes_exist :
  ∃ m, Reads (readSubs (Registering.read depth) s.objects.length
      (FileName.normalize source.file) object.subs 0)
    ((s.dropSource file.name).addObject object) () m
  := by
  have hdropped : (s.dropSource file.name).Valid :=
    ⟨hs.order, hs.reading, hs.depth, hs.fresh, hs.ranked⟩
  have hvalid := addObject_valid hdropped (Object.ofSource_fresh hobject)
  have hstart := ht.addObject hs (fileId?_eq_none_iff.mp hunread) hreached hfound hobject
  have hzero : TracedUpTo program ((s.dropSource file.name).addObject object) s.objects.length 0
      ((s.dropSource file.name).addObject object) :=
    ⟨ReadUpTo.zero hvalid _, hstart, fun i _ hi => absurd hi (Nat.not_lt_zero i)⟩
  apply readSubs_exists [] _ hzero
  intro i sub m hsub h
  exact readNext_exists hread hs ht hreached hdepth hleads hunread hfound hobject hsub h

end Open

/-- In a well-formed program all files that are reached can be read. -/
theorem read_exists (hform : program.WellFormed) (depth : Nat) :
  ReadsReached program depth
  := by
  induction depth with
  | zero =>
    intro file s hs ht hreached hdepth hleads
    cases hfile : fileId? s.objects (FileName.key file.name) with
    | some id =>
      obtain ⟨s', hagain⟩ := again_exists hform hs hreached hleads hfile
      exact ⟨id, s', reads_of_again hagain 0⟩
    | none =>
      -- the source is left, so there is a level of depth
      obtain ⟨source, hsource⟩ := hform.present _ hreached
      rw [← ht.source?_eq (fileId?_eq_none_iff.mp hfile)] at hsource
      have hlt := length_dropSource_lt hsource
      omega
  | succ depth ih =>
    intro file s hs ht hreached hdepth hleads
    cases hfile : fileId? s.objects (FileName.key file.name) with
    | some id =>
      obtain ⟨s', hagain⟩ := again_exists hform hs hreached hleads hfile
      exact ⟨id, s', reads_of_again hagain (depth + 1)⟩
    | none =>
      obtain ⟨source, hsource⟩ := hform.present _ hreached
      obtain ⟨object, hobject⟩ :=
        (Object.ofSource_ok_iff source).mpr (hform.distinct _ source hreached hsource)
      have hdeclared := hobject
      rw [← Object.ofSource_untargeted hobject] at hdeclared
      have hentry :=
        (Object.firstPublic_ofSource hdeclared).mpr (hform.entry _ source hreached hsource)
      rw [← ht.source?_eq (fileId?_eq_none_iff.mp hfile)] at hsource
      obtain ⟨m, hsubs⟩ := includes_exist ih hs ht hreached hdepth hleads hfile hsource hobject
      have hopens : Opens (Registering.read depth) file s source object m :=
        ⟨hfile, hsource, hobject, hsubs, hentry⟩
      exact ⟨s.objects.length, _, hopens.reads⟩

end Registering

/-! ### Registered programs -/

namespace Program

theorem unread_traced (program : Program) :
  Registration.Traced program program.unread
  where
  sources := (List.filter_eq_self.mpr fun _ _ => rfl).symm
  distinct := List.nodup_nil
  declared _ hid := absurd hid (Nat.not_lt_zero _)
  reached _ hid := absurd hid (Nat.not_lt_zero _)
  targets _ hid := absurd hid.1 (Nat.not_lt_zero _)
  entry _ hid := absurd hid.1 (Nat.not_lt_zero _)

theorem register_of_wellFormed {program : Program} (h : program.WellFormed) :
  ∃ build, program.register = .ok build
  := by
  have hroot : program.Reaches (FileName.key program.root) := .refl
  have hleads : Registering.LeadsTo program program.unread (FileName.key program.root) := nofun
  obtain ⟨id, s, hread⟩ : ∃ id s, Reads (Registering.read program.objects.length
      { name := program.root }) program.unread id s :=
    Registering.read_exists h _ program.unread_valid program.unread_traced hroot le_rfl hleads
  exact ⟨{ objects := s.objects, order := s.order }, bind_of_ok hread⟩

theorem register_builds {program : Program} {build : Build} (h : program.register = .ok build) :
  program.Builds build
  := by
  have hregistered := register_spec h
  obtain ⟨rank, hranked⟩ := hregistered.ranked
  obtain ⟨depth, source, object, m, hopens, rfl⟩ := program.register_opens h
  have hreached : program.Reaches (FileName.key program.root) := .refl
  obtain ⟨_, hext, _⟩ := hopens.finish_spec (Registering.read_spec depth) program.unread_valid
  obtain ⟨htraced, hroot⟩ := hopens.finish_traced program.unread_valid program.unread_traced
    hreached (Registering.read_spec depth) (Registering.read_traces program depth)
  have hall : ∀ id < m.objects.length,
      Registration.Complete { m with reading := m.reading.drop 1 } id := by
    intro id hid
    refine ⟨hid, ?_⟩
    rw [hext.reading]
    apply List.not_mem_nil
  have htarget : ∀ id < m.objects.length, ∀ sub ∈ (objectAt m.objects id).subs,
      sub.target < m.objects.length
        ∧ (objectAt m.objects sub.target).fileKey = FileName.key sub.file.name := by
    intro id hid sub hsub
    exact ⟨((hranked id hid List.not_mem_nil).2 sub hsub).1,
      htraced.targets id (hall id hid) sub hsub⟩
  refine
    { distinct := htraced.distinct
      reached := ?_
      declared := htraced.declared
      targets := htarget
      root := hroot
      entry := fun id hid => htraced.entry id (hall id hid)
      order := hregistered.order
      first := hregistered.first }
  intro file
  constructor
  · intro hmem
    obtain ⟨id, hid, rfl⟩ := mem_fileKeys.mp hmem
    apply htraced.reached id hid
  · intro hreaches
    induction hreaches with
    | refl => exact mem_fileKeys.mpr ⟨Build.root, hregistered.nonempty, hroot⟩
    | tail _ hincludes ih =>
      obtain ⟨id, hid, rfl⟩ := mem_fileKeys.mp ih
      obtain ⟨sub, hsub, rfl⟩ := (htraced.includes_iff hid).mp hincludes
      obtain ⟨hlt, hkey⟩ := htarget id hid sub hsub
      exact mem_fileKeys.mpr ⟨sub.target, hlt, hkey⟩

namespace Builds

variable {program : Program} {build : Build} (h : program.Builds build)

include h

theorem includes_iff {id : ObjId} (hid : id < build.objects.length) {included : String} :
  program.Includes (build.object id).fileKey included
    ↔ ∃ sub ∈ (build.object id).subs, (build.object sub.target).fileKey = included
  := by
  obtain ⟨source, hsource, hobject⟩ := h.declared id hid
  rw [Program.includes_iff hsource hobject]
  constructor
  · rintro ⟨sub, hsub, rfl⟩
    exact ⟨sub, hsub, (h.targets id hid sub hsub).2⟩
  · rintro ⟨sub, hsub, rfl⟩
    exact ⟨sub, hsub, (h.targets id hid sub hsub).2.symm⟩

/-- The objects have different files. -/
theorem eq_of_fileKey {id other : ObjId} (hid : id < build.objects.length)
    (hother : other < build.objects.length)
    (hkey : (build.object id).fileKey = (build.object other).fileKey) :
  id = other
  := by
  have hget {k : ObjId} (hk : k < build.objects.length) :
      (build.objects.map Object.fileKey)[k]? = some (build.object k).fileKey := by
    rw [List.getElem?_map, Build.object, objectAt, List.getElem?_eq_getElem hk]
    rfl
  apply (List.getElem?_inj (by rwa [List.length_map]) h.distinct).mp
  rw [hget hid, hget hother, hkey]

/-- Chains of includes go down in rank. -/
theorem rank_lt {rank : ObjId → Nat} (hranked : Ranked build.objects [] rank) {id : ObjId}
    (hid : id < build.objects.length) {included : String}
    (hchain : Relation.TransGen program.Includes (build.object id).fileKey included) :
  ∃ other < build.objects.length, (build.object other).fileKey = included ∧ rank other < rank id
  := by
  induction hchain with
  | single hincludes =>
    obtain ⟨sub, hsub, rfl⟩ := (h.includes_iff hid).mp hincludes
    obtain ⟨htarget, _, hless⟩ := (hranked id hid List.not_mem_nil).2 sub hsub
    exact ⟨sub.target, htarget, rfl, hless⟩
  | tail _ hincludes ih =>
    obtain ⟨other, hother, rfl, hless⟩ := ih
    obtain ⟨sub, hsub, rfl⟩ := (h.includes_iff hother).mp hincludes
    obtain ⟨htarget, _, hless'⟩ := (hranked other hother List.not_mem_nil).2 sub hsub
    exact ⟨sub.target, htarget, rfl, hless'.trans hless⟩

theorem wellFormed (hregistered : build.Registered) :
  program.WellFormed
  := by
  obtain ⟨rank, hranked⟩ := hregistered.ranked
  have hobject {file : String} (hreaches : program.Reaches file) :
      ∃ id < build.objects.length, (build.object id).fileKey = file :=
    mem_fileKeys.mp ((h.reached file).mpr hreaches)
  constructor
  · intro file hreaches
    obtain ⟨id, hid, rfl⟩ := hobject hreaches
    obtain ⟨source, hsource, _⟩ := h.declared id hid
    exact ⟨source, hsource⟩
  · intro file source hreaches hsource
    obtain ⟨id, hid, rfl⟩ := hobject hreaches
    obtain ⟨source', hsource', hdeclared⟩ := h.declared id hid
    cases hsource.symm.trans hsource'
    exact (Object.ofSource_ok_iff source).mp ⟨_, hdeclared⟩
  · intro file hreaches hcycle
    obtain ⟨id, hid, rfl⟩ := hobject hreaches
    obtain ⟨other, hother, hkey, hless⟩ := h.rank_lt hranked hid hcycle
    rw [h.eq_of_fileKey hother hid hkey] at hless
    exact Nat.lt_irrefl _ hless
  · intro file source hreaches hsource
    obtain ⟨id, hid, rfl⟩ := hobject hreaches
    obtain ⟨source', hsource', hdeclared⟩ := h.declared id hid
    cases hsource.symm.trans hsource'
    exact (Object.firstPublic_ofSource hdeclared).mp (h.entry id hid)

end Builds

/-- Registration accepts exactly the well-formed programs, and gives their builds. -/
theorem register_accepts (program : Program) :
  ((∃ build, program.register = .ok build) ↔ program.WellFormed)
    ∧ ∀ build, program.register = .ok build → program.Builds build
  := by
  refine ⟨⟨?_, register_of_wellFormed⟩, fun _ => register_builds⟩
  rintro ⟨build, h⟩
  exact (register_builds h).wellFormed (register_spec h)

/-- A program in which a file that includes another one is included again, by another spelling, and
which has two sources of one file. -/
def diamondProgram : Program :=
  let run : MethodDecl := { name := { name := "run" }, isPublic := true }
  { root := "top"
    objects := [
      { file := "Leaf" },
      { file := "top.spin", methods := [run]
        objs := [{ name := { name := "a" }, file := { name := "left" } },
          { name := { name := "b" }, file := { name := "right" } }] },
      { file := "left", methods := [run]
        objs := [{ name := { name := "c" }, file := { name := "leaf" } }] },
      { file := "right", methods := [run]
        objs := [{ name := { name := "d" }, file := { name := "LEFT.spin" } }] },
      { file := "leaf", methods := [run] }] }

/-- The diamond is well formed, and the files that are included again stand at the end. -/
theorem register_accepts_diamond :
  diamondProgram.WellFormed ∧ ∃ build, diamondProgram.register = .ok build
    ∧ diamondProgram.Builds build ∧ build.order = [0, 3, 1, 2]
  := by
  obtain ⟨build, h, horder⟩ :
      ∃ build, diamondProgram.register = .ok build ∧ build.order = [0, 3, 1, 2] := by
    decide +kernel
  obtain ⟨haccepts, hbuilds⟩ := register_accepts diamondProgram
  exact ⟨haccepts.mp ⟨build, h⟩, build, h, hbuilds build h, horder⟩

end Program

end SpinHub
