import Mathlib
import SpinHub.Proofs.DeclaredNames
import SpinHub.Registration

/-!
# Registered builds

Registration numbers the objects, lists each of them once in the order of layout, and leads every
sub-object to an object of the build. An object is complete when all that it includes is, so the
order in which objects are completed ranks them: includes go down in rank.
-/

namespace SpinHub

variable {α β : Type}

/-! ### Runs of a registration -/

/-- From state `s` the registration succeeds with `a` and leaves `s'`. -/
def Reads (action : Registering α) (s : Registration) (a : α) (s' : Registration) : Prop :=
  action.run s = .ok (a, s')

theorem reads_pure {a b : α} {s s' : Registration} (h : Reads (pure a) s b s') :
  b = a ∧ s' = s
  := by
  cases h
  exact ⟨rfl, rfl⟩

/-- What is read in two parts passes through a state between them. -/
theorem reads_bind {x : Registering α} {f : α → Registering β} {s s' : Registration} {b : β}
    (h : Reads (x >>= f) s b s') :
  ∃ a m, Reads x s a m ∧ Reads (f a) m b s'
  := by
  rw [Reads, StateT.run_bind] at h
  cases hx : x.run s with
  | error fault =>
    rw [hx] at h
    cases h
  | ok result =>
    rw [hx] at h
    use result.1, result.2, hx, h

theorem reads_get_bind {f : Registration → Registering β} {s s' : Registration} {b : β}
    (h : Reads (get >>= f) s b s') :
  Reads (f s) s b s'
  := h

theorem reads_set {t s s' : Registration} {u : PUnit} (h : Reads (set t) s u s') :
  s' = t
  := by
  cases h
  rfl

theorem reads_modify {f : Registration → Registration} {s s' : Registration} {u : PUnit}
    (h : Reads (modify f) s u s') :
  s' = f s
  := by
  cases h
  rfl

theorem reads_throw {fault : Fault} {a : α} {s s' : Registration} :
  ¬ Reads (throw fault) s a s'
  := nofun

theorem reads_liftM {e : Except Fault α} {a : α} {s s' : Registration}
    (h : Reads (liftM e) s a s') :
  e = .ok a ∧ s' = s
  := by
  cases e with
  | error fault => cases h
  | ok b =>
    cases h
    exact ⟨rfl, rfl⟩

/-- Naming the file of failures does not change what is read. -/
theorem reads_inFile {file : String} {action : Registering α} {a : α} {s s' : Registration}
    (h : Reads (inFile file action) s a s') :
  Reads action s a s'
  := by
  rw [Reads] at h ⊢
  change tryCatch (action.run s) _ = _ at h
  cases hrun : action.run s with
  | error fault =>
    rw [hrun] at h
    cases h
  | ok result =>
    rw [hrun] at h
    exact h

/-- Two parts that are read in turn are read as one. -/
theorem Reads.bind {x : Registering α} {f : α → Registering β} {s m s' : Registration} {a : α}
    {b : β} (hx : Reads x s a m) (hf : Reads (f a) m b s') :
  Reads (x >>= f) s b s'
  := by
  rw [Reads] at hx
  rw [Reads, StateT.run_bind, hx]
  exact hf

theorem Reads.get_bind {f : Registration → Registering β} {s s' : Registration} {b : β}
    (h : Reads (f s) s b s') :
  Reads (get >>= f) s b s'
  := h

theorem Reads.inFile {file : String} {action : Registering α} {a : α} {s s' : Registration}
    (h : Reads action s a s') :
  Reads (SpinHub.inFile file action) s a s'
  := by
  rw [Reads] at h ⊢
  change tryCatch (action.run s) _ = _
  rw [h]
  rfl

/-! ### Objects from source -/

/-- An object as it was read: it has no labels yet, its variables have no room, and nothing takes
its place. -/
structure Object.Fresh (object : Object) : Prop where
  labels : object.labels = []
  varSize : object.varSize = 0
  replacement : object.replacement = none

/-- The object of a file has no labels, no room for variables and nothing in its place yet. -/
theorem Object.ofSource_fresh {source : SourceObject} {object : Object}
    (h : Object.ofSource source = .ok object) :
  object.Fresh
  := by
  have hspec := Object.ofSource_spec h
  constructor
  · exact (congrArg Object.labels hspec :)
  · exact (congrArg Object.varSize hspec :)
  · exact (congrArg Object.replacement hspec :)

/-! ### Targets -/

namespace Object

/-- An object without what its sub-objects lead to. -/
def untargeted (object : Object) : Object :=
  { object with subs := object.subs.map fun sub => { sub with target := 0 } }

/-- An object with one of its sub-objects led to a target. -/
def withTarget (object : Object) (index : Nat) (target : ObjId) : Object :=
  { object with subs := object.subs.modify index fun sub => { sub with target } }

/-- The target of a sub-object is not part of what its file declares. -/
theorem untargeted_withTarget (object : Object) (index : Nat) (target : ObjId) :
  (object.withTarget index target).untargeted = object.untargeted
  := by
  have hsubs : ((object.subs.modify index fun sub => { sub with target }).map
        fun sub => { sub with target := 0 })
      = object.subs.map fun sub => { sub with target := 0 } := by
    apply map_modify_of_eq
    intro sub
    rfl
  rw [untargeted, withTarget, hsubs, untargeted]

/-- Objects that differ in targets only have as many sub-objects. -/
theorem length_subs_of_untargeted {object object' : Object}
    (h : object.untargeted = object'.untargeted) :
  object.subs.length = object'.subs.length
  := by
  have hlength := congrArg (fun object => object.subs.length) h
  simpa only [untargeted, List.length_map] using hlength

end Object

/-! ### Valid states -/

/-- The rank of every complete object is below the number of complete objects, and all that it
includes is complete and has a smaller rank. -/
def Ranked (objects : List Object) (reading : List ObjId) (rank : ObjId → Nat) : Prop :=
  ∀ id < objects.length, id ∉ reading → rank id < objects.length - reading.length
    ∧ ∀ sub ∈ (objectAt objects id).subs, sub.target < objects.length ∧ sub.target ∉ reading
      ∧ rank sub.target < rank id

namespace Registration

/-- What holds of a registration all along. -/
structure Valid (s : Registration) : Prop where
  order : s.order.Perm (List.range s.objects.length)
  reading : ∀ id ∈ s.reading, id < s.objects.length
  depth : s.reading.length ≤ s.objects.length
  fresh : ∀ id, (objectAt s.objects id).Fresh
  ranked : ∃ rank, Ranked s.objects s.reading rank

/-- An object that has been read with all that it includes. -/
def Complete (s : Registration) (id : ObjId) : Prop := id < s.objects.length ∧ id ∉ s.reading

/-- Objects have been added, the ones before are as they were, and an object that is being read
stays first in the order. -/
structure Extends (s s' : Registration) : Prop where
  reading : s'.reading = s.reading
  length : s.objects.length ≤ s'.objects.length
  object : ∀ id < s.objects.length, objectAt s'.objects id = objectAt s.objects id
  first : ∀ id ∈ s.reading, s.order.head? = some id → s'.order.head? = some id

/-- A complete object stays complete as reading goes on. -/
theorem Complete.extends {s s' : Registration} {id : ObjId} (h : s.Complete id)
    (hext : s.Extends s') :
  s'.Complete id
  := by
  refine ⟨h.1.trans_le hext.length, ?_⟩
  rw [hext.reading]
  exact h.2

/-! ### Moving objects to the end -/

/-- Moving a known object to the end of the order keeps the order valid. -/
theorem Valid.moveToEnd {s : Registration} (h : s.Valid) {id : ObjId}
    (hid : id < s.objects.length) :
  (s.moveToEnd id).Valid
  := by
  refine ⟨?_, h.reading, h.depth, h.fresh, h.ranked⟩
  apply List.Perm.trans _ h.order
  have hmem : id ∈ s.order := h.order.mem_iff.mpr (List.mem_range.mpr hid)
  have hnodup : s.order.Nodup := h.order.nodup_iff.mpr List.nodup_range
  have hfilter : s.order.filter (· ≠ id) = s.order.erase id := by
    rw [hnodup.erase_eq_filter]
    apply List.filter_congr
    intro other _
    simp only [bne, decide_not, beq_eq_decide]
  show (s.order.filter (· ≠ id) ++ [id]).Perm s.order
  rw [hfilter]
  apply (List.perm_append_singleton id _).trans (List.perm_cons_erase hmem).symm

/-- The object in front stays in front as long as another one is moved. -/
theorem head_moveToEnd {s : Registration} {id kept : ObjId} (hne : kept ≠ id)
    (h : s.order.head? = some kept) :
  (s.moveToEnd id).order.head? = some kept
  := by
  rw [List.head?_eq_some_iff] at h
  obtain ⟨rest, hrest⟩ := h
  rw [moveToEnd, hrest, List.filter_cons_of_pos (by simpa using hne)]
  rfl

/-- Moves objects to the end of the order, one after another. -/
def moveAll (s : Registration) (ids : List ObjId) : Registration := ids.foldl moveToEnd s

/-- Only the order changes. -/
theorem moveAll_eq (s : Registration) (ids : List ObjId) :
  ∃ order, s.moveAll ids = { s with order }
  := by
  induction ids generalizing s with
  | nil => exact ⟨s.order, rfl⟩
  | cons id ids ih => exact ih (s.moveToEnd id)

/-- Moving known objects to the end in turn keeps the order valid. -/
theorem Valid.moveAll {s : Registration} (h : s.Valid) {ids : List ObjId}
    (hids : ∀ id ∈ ids, id < s.objects.length) :
  (s.moveAll ids).Valid
  := by
  induction ids generalizing s with
  | nil => exact h
  | cons id ids ih =>
    apply ih (h.moveToEnd (hids id List.mem_cons_self))
    intro other hother
    apply hids other (List.mem_cons_of_mem id hother)

/-- The object in front stays in front as long as only others are moved. -/
theorem head_moveAll {s : Registration} {ids : List ObjId} {kept : ObjId} (hids : kept ∉ ids)
    (h : s.order.head? = some kept) :
  (s.moveAll ids).order.head? = some kept
  := by
  induction ids generalizing s with
  | nil => exact h
  | cons id ids ih =>
    apply ih (List.not_mem_of_not_mem_cons hids)
    apply head_moveToEnd (List.ne_of_not_mem_cons hids) h

/-- Moving objects that are not being read only changes the order. -/
theorem extends_moveAll {s : Registration} {ids : List ObjId}
    (hids : ∀ id ∈ ids, id ∉ s.reading) :
  s.Extends (s.moveAll ids)
  := by
  obtain ⟨order, horder⟩ := s.moveAll_eq ids
  refine ⟨?_, ?_, ?_, ?_⟩
  · rw [horder]
  · rw [horder]
  · intro id _
    rw [horder]
  · intro id hid
    apply head_moveAll
    intro hmem
    apply hids id hmem hid

/-- An object and what it includes. -/
def family (s : Registration) (id : ObjId) : List ObjId :=
  id :: (objectAt s.objects id).subs.map (·.target)

/-- What a complete object includes is complete. -/
theorem Valid.family_complete {s : Registration} (hs : s.Valid) {id : ObjId} (h : s.Complete id) :
  ∀ other ∈ s.family id, s.Complete other
  := by
  obtain ⟨rank, hrank⟩ := hs.ranked
  intro other hother
  rcases List.mem_cons.mp hother with rfl | hmem
  · exact h
  · obtain ⟨sub, hsub, rfl⟩ := List.mem_map.mp hmem
    obtain ⟨htarget, hread, _⟩ := (hrank id h.1 h.2).2 sub hsub
    exact ⟨htarget, hread⟩

end Registration

namespace Registering

open Registration

/-- A file that is named again is moved to the end, unless it is still being read. -/
theorem reads_repeatObject {file : Ident} {id : ObjId} {s s' : Registration} {u : Unit} :
  Reads (repeatObject file id) s u s' ↔ id ∉ s.reading ∧ s' = s.moveToEnd id
  := by
  constructor
  · intro h
    replace h := reads_get_bind h
    split_ifs at h with hreading
    · cases reads_throw h
    · exact ⟨hreading, reads_set h⟩
  · rintro ⟨hreading, rfl⟩
    apply Reads.get_bind
    rw [if_neg hreading]
    rfl

/-- The files of sub-objects are moved to the end in turn, unless one is still being read. -/
theorem reads_forM_repeatObject {file : Ident} {subs : List SubObject} {s s' : Registration}
    {u : PUnit} :
  Reads (subs.forM fun sub => repeatObject file sub.target) s u s'
    ↔ (∀ sub ∈ subs, sub.target ∉ s.reading) ∧ s' = s.moveAll (subs.map (·.target))
  := by
  induction subs generalizing s with
  | nil =>
    constructor
    · intro h
      obtain ⟨_, rfl⟩ := reads_pure h
      exact ⟨nofun, rfl⟩
    · rintro ⟨_, rfl⟩
      rfl
  | cons sub subs ih =>
    rw [List.forall_mem_cons]
    constructor
    · intro h
      obtain ⟨_, m, hfirst, hrest⟩ := reads_bind h
      obtain ⟨hsub, rfl⟩ := reads_repeatObject.mp hfirst
      obtain ⟨hsubs, hs'⟩ := ih.mp hrest
      exact ⟨⟨hsub, hsubs⟩, hs'⟩
    · rintro ⟨⟨hsub, hsubs⟩, rfl⟩
      have hfirst : Reads (repeatObject file sub.target) s () (s.moveToEnd sub.target) :=
        reads_repeatObject.mpr ⟨hsub, rfl⟩
      exact hfirst.bind (ih.mpr ⟨hsubs, rfl⟩)

/-- A file that was not read before is not found again. -/
theorem reads_again_none {file : Ident} {s s' : Registration} {found : Option ObjId}
    (hfile : fileId? s.objects (FileName.key file.name) = none) :
  Reads (again? file) s found s' ↔ found = none ∧ s' = s
  := by
  constructor
  · intro h
    replace h := reads_get_bind h
    rw [hfile] at h
    exact reads_pure h
  · rintro ⟨rfl, rfl⟩
    apply Reads.get_bind
    rw [hfile]
    rfl

/-- A file that was read before moves to the end with its family, of which none may still be
read. -/
theorem reads_again_some {file : Ident} {s s' : Registration} {found : Option ObjId} {id : ObjId}
    (hfile : fileId? s.objects (FileName.key file.name) = some id) :
  Reads (again? file) s found s'
    ↔ found = some id ∧ (∀ other ∈ s.family id, other ∉ s.reading) ∧ s' = s.moveAll (s.family id)
  := by
  rw [family, List.forall_mem_cons, List.forall_mem_map]
  constructor
  · intro h
    replace h := reads_get_bind h
    rw [hfile] at h
    obtain ⟨_, m, hfirst, h⟩ := reads_bind h
    obtain ⟨hid, rfl⟩ := reads_repeatObject.mp hfirst
    obtain ⟨_, m', hsubs, h⟩ := reads_bind h
    obtain ⟨rfl, rfl⟩ := reads_pure h
    obtain ⟨htargets, rfl⟩ := reads_forM_repeatObject.mp hsubs
    exact ⟨rfl, ⟨hid, htargets⟩, rfl⟩
  · rintro ⟨rfl, ⟨hid, htargets⟩, rfl⟩
    apply Reads.get_bind
    rw [hfile]
    have hfirst : Reads (repeatObject file id) s () (s.moveToEnd id) :=
      reads_repeatObject.mpr ⟨hid, rfl⟩
    have hrest : Reads ((objectAt s.objects id).subs.forM fun sub => repeatObject file sub.target)
        (s.moveToEnd id) () (s.moveAll (s.family id)) :=
      reads_forM_repeatObject.mpr ⟨htargets, rfl⟩
    exact hfirst.bind (hrest.bind rfl)

/-- An object that was read before is complete, and stays as it is. -/
theorem again_spec {file : Ident} {s s' : Registration} {id : ObjId} (hs : s.Valid)
    (h : Reads (again? file) s (some id) s') :
  fileId? s.objects (FileName.key file.name) = some id ∧ s'.Valid ∧ s.Extends s'
    ∧ s'.Complete id ∧ ∃ order, s' = { s with order }
  := by
  cases hfile : fileId? s.objects (FileName.key file.name) with
  | none => cases (reads_again_none hfile).mp h |>.1
  | some other =>
    obtain ⟨hsome, hreading, rfl⟩ := (reads_again_some hfile).mp h
    cases hsome
    have hcomplete : s.Complete id :=
      ⟨(List.findIdx?_eq_some_iff_getElem.mp hfile).1, hreading id List.mem_cons_self⟩
    have hext : s.Extends (s.moveAll (s.family id)) := extends_moveAll hreading
    refine ⟨rfl, hs.moveAll ?_, hext, hcomplete.extends hext, s.moveAll_eq _⟩
    intro other hother
    apply (hs.family_complete hcomplete other hother).1

/-! ### Reading files -/

/-- A file is opened for the first time: its source becomes an object, and all that the object
includes is read, up to the state `m`. -/
structure Opens (read : Ident → Registering ObjId) (file : Ident) (s : Registration)
    (source : SourceObject) (object : Object) (m : Registration) : Prop where
  unread : fileId? s.objects (FileName.key file.name) = none
  found : s.source? file.name = some source
  declared : Object.ofSource source = .ok object
  subs : Reads (readSubs read s.objects.length (FileName.normalize source.file) object.subs 0)
    ((s.dropSource file.name).addObject object) () m
  entry : object.firstPublic?.isSome

/-- A file is read by finding its object again or by opening it. -/
theorem reads_read {depth : Nat} {file : Ident} {s s' : Registration} {id : ObjId}
    (h : Reads (read depth file) s id s') :
  Reads (again? file) s (some id) s'
    ∨ ∃ lower source object m, depth = lower + 1 ∧ Opens (read lower) file s source object m
      ∧ id = s.objects.length ∧ s' = { m with reading := m.reading.drop 1 }
  := by
  cases hfile : fileId? s.objects (FileName.key file.name) with
  | some other =>
    left
    cases depth with
    | zero =>
      obtain ⟨found, m, hagain, h⟩ := reads_bind h
      obtain ⟨rfl, _⟩ := (reads_again_some hfile).mp hagain
      obtain ⟨rfl, rfl⟩ := reads_pure h
      exact hagain
    | succ depth =>
      obtain ⟨found, m, hagain, h⟩ := reads_bind h
      obtain ⟨rfl, _⟩ := (reads_again_some hfile).mp hagain
      obtain ⟨rfl, rfl⟩ := reads_pure h
      exact hagain
  | none =>
    right
    cases depth with
    | zero =>
      obtain ⟨found, m, hagain, h⟩ := reads_bind h
      obtain ⟨rfl, _⟩ := (reads_again_none hfile).mp hagain
      cases reads_throw h
    | succ depth =>
      obtain ⟨found, m, hagain, hopen⟩ := reads_bind h
      obtain ⟨rfl, rfl⟩ := (reads_again_none hfile).mp hagain
      replace h := reads_get_bind hopen
      cases hsource : m.source? file.name with
      | none =>
        rw [hsource] at h
        cases reads_throw h
      | some source =>
        rw [hsource] at h
        obtain ⟨object, m₁, hobject, h⟩ := reads_bind h
        obtain ⟨hof, rfl⟩ := reads_liftM hobject
        obtain ⟨_, m₂, hset, h⟩ := reads_bind h
        obtain rfl := reads_set hset
        obtain ⟨_, m₃, hsubs, h⟩ := reads_bind h
        split_ifs at h with hentry
        · cases reads_throw h
        · obtain ⟨_, m₄, hmodify, h⟩ := reads_bind h
          obtain rfl := reads_modify hmodify
          obtain ⟨rfl, rfl⟩ := reads_pure h
          have hopens : Opens (read depth) file m₁ source object m₃ :=
            ⟨hfile, hsource, ok_of_mapError hof, hsubs,
              Option.isNone_eq_false_iff.mp (Bool.eq_false_iff.mpr hentry)⟩
          exact ⟨depth, source, object, m₃, rfl, hopens, rfl, rfl⟩

/-- A file that was read before is not read again, whatever the depth. -/
theorem reads_of_again {file : Ident} {s s' : Registration} {id : ObjId}
    (h : Reads (again? file) s (some id) s') (depth : Nat) :
  Reads (read depth file) s id s'
  := by
  cases depth with
  | zero => exact h.bind rfl
  | succ depth => exact h.bind rfl

/-- A file that is opened and whose sub-objects are read has been read, and its object has the next
number. -/
theorem Opens.reads {depth : Nat} {file : Ident} {s m : Registration} {source : SourceObject}
    {object : Object} (h : Opens (read depth) file s source object m) :
  Reads (read (depth + 1) file) s s.objects.length { m with reading := m.reading.drop 1 }
  := by
  rw [read]
  apply ((reads_again_none h.unread).mpr ⟨rfl, rfl⟩).bind
  apply Reads.get_bind
  rw [h.found]
  have hobject : Reads (liftM ((Object.ofSource source).mapError
      (·.inFile (FileName.normalize source.file)))) s object s := by
    rw [h.declared]
    rfl
  apply hobject.bind
  have hset : Reads (set ((s.dropSource file.name).addObject object)) s ()
      ((s.dropSource file.name).addObject object) := rfl
  apply hset.bind
  apply h.subs.bind
  rw [if_neg (Bool.eq_false_iff.mp (Option.isNone_eq_false_iff.mpr h.entry))]
  rfl

/-! ### Sub-objects -/

/-- What reading one file does: the states stay valid, objects are added, and the object of the
file is complete. -/
def ReadsFiles (read : Ident → Registering ObjId) : Prop :=
  ∀ {file s id s'}, s.Valid → Reads (read file) s id s' → s'.Valid ∧ s.Extends s' ∧ s'.Complete id

/-- What every sub-object carries on from its place to the next, all of them carry on. -/
theorem readSubs_invariant {read : Ident → Registering ObjId} {id : ObjId} {display : String}
    {holds : Nat → Registration → Prop} {subs : List SubObject} {s s' : Registration} {u : Unit}
    (done : List SubObject)
    (hstep : ∀ i sub s target m, (done ++ subs)[i]? = some sub → holds i s →
      Reads (read sub.file) s target m → holds (i + 1) (m.setTarget id i target))
    (hs : holds done.length s) (h : Reads (readSubs read id display subs done.length) s u s') :
  holds (done ++ subs).length s'
  := by
  induction subs generalizing done s with
  | nil =>
    obtain ⟨_, rfl⟩ := reads_pure h
    rwa [List.append_nil]
  | cons sub subs ih =>
    obtain ⟨target, m, hfile, h⟩ := reads_bind h
    obtain ⟨_, m', hmodify, h⟩ := reads_bind h
    obtain rfl := reads_modify hmodify
    have hplace : (done ++ sub :: subs)[done.length]? = some sub := by
      rw [List.getElem?_append_right le_rfl, Nat.sub_self, List.getElem?_cons_zero]
    have hnext := hstep done.length sub s target m hplace hs (reads_inFile hfile)
    rw [← List.singleton_append, ← List.append_assoc] at hstep ⊢
    have hlength : (done ++ [sub]).length = done.length + 1 := List.length_append
    rw [← hlength] at hnext h
    apply ih (done ++ [sub]) hstep hnext h

/-- Giving a sub-object its target keeps the state valid. -/
theorem setTarget_valid {s : Registration} (hs : s.Valid) {id : ObjId} (hid : id ∈ s.reading)
    (index : Nat) (target : ObjId) :
  (s.setTarget id index target).Valid
  := by
  have hlength : (s.setTarget id index target).objects.length = s.objects.length :=
    List.length_modify ..
  have hother {other : ObjId} (h : id ≠ other) :
      objectAt (s.setTarget id index target).objects other = objectAt s.objects other :=
    objectAt_modify_ne _ h
  constructor
  · rw [hlength]
    exact hs.order
  · rw [hlength]
    exact hs.reading
  · rw [hlength]
    exact hs.depth
  · intro other
    by_cases h : id = other
    · subst h
      rw [setTarget, objectAt_modify_self _ (hs.reading id hid)]
      exact ⟨(hs.fresh id).labels, (hs.fresh id).varSize, (hs.fresh id).replacement⟩
    · rw [hother h]
      apply hs.fresh
  · -- the object is being read, and ranks are those of complete objects
    obtain ⟨rank, hrank⟩ := hs.ranked
    use rank
    rw [Ranked, hlength]
    intro other hlt hcomplete
    have h : id ≠ other := by
      rintro rfl
      apply hcomplete hid
    rw [hother h]
    apply hrank other hlt hcomplete

/-- The state in which the first `index` sub-objects of object `id` have been read since `start`:
each of them leads to a complete object, and other objects are as they were. -/
structure ReadUpTo (start : Registration) (id : ObjId) (index : Nat) (s : Registration) : Prop where
  valid : s.Valid
  reading : s.reading = start.reading
  length : start.objects.length ≤ s.objects.length
  others : ∀ other < start.objects.length, other ≠ id →
    objectAt s.objects other = objectAt start.objects other
  self : (objectAt s.objects id).untargeted = (objectAt start.objects id).untargeted
  targets : ∀ i sub, i < index → (objectAt s.objects id).subs[i]? = some sub →
    s.Complete sub.target
  first : ∀ kept ∈ start.reading, start.order.head? = some kept → s.order.head? = some kept

/-- Before the first sub-object nothing has been read. -/
theorem ReadUpTo.zero {start : Registration} (h : start.Valid) (id : ObjId) :
  ReadUpTo start id 0 start
  where
  valid := h
  reading := rfl
  length := le_rfl
  others _ _ _ := rfl
  self := rfl
  targets i _ hi := absurd hi (Nat.not_lt_zero i)
  first _ _ h := h

section Next

variable {start s m : Registration} {id target : ObjId} {index : Nat}
  (h : ReadUpTo start id index s) (hid : id ∈ start.reading) (hm : m.Valid) (hext : s.Extends m)

include h hid hm hext

/-- Reading a sub-object leaves the object that names it alone, up to the new target. -/
theorem ReadUpTo.object_setTarget :
  objectAt (m.setTarget id index target).objects id
    = (objectAt s.objects id).withTarget index target
  := by
  have hids : id ∈ s.reading := by
    rwa [h.reading]
  have hidm : id ∈ m.reading := by
    rwa [hext.reading]
  rw [setTarget, objectAt_modify_self _ (hm.reading id hidm),
    hext.object id (h.valid.reading id hids), Object.withTarget]

/-- One more sub-object has been read. -/
theorem ReadUpTo.next (htarget : m.Complete target) :
  ReadUpTo start id (index + 1) (m.setTarget id index target)
  := by
  have hidm : id ∈ m.reading := by
    rwa [hext.reading, h.reading]
  have hself := @ReadUpTo.object_setTarget _ _ _ _ target _ h hid hm hext
  have hlength : (m.setTarget id index target).objects.length = m.objects.length :=
    List.length_modify ..
  have hcomplete {other : ObjId} (hother : m.Complete other) :
      (m.setTarget id index target).Complete other := by
    refine ⟨?_, hother.2⟩
    rw [hlength]
    exact hother.1
  constructor
  · exact setTarget_valid hm hidm index target
  · exact hext.reading.trans h.reading
  · rw [hlength]
    exact h.length.trans hext.length
  · intro other hlt hne
    rw [setTarget, objectAt_modify_ne _ (Ne.symm hne), hext.object other (hlt.trans_le h.length)]
    exact h.others other hlt hne
  · rw [hself, Object.untargeted_withTarget, h.self]
  · intro i sub hi hsub
    rw [hself, Object.withTarget, List.getElem?_modify] at hsub
    obtain ⟨old, hold, rfl⟩ := Option.map_eq_some_iff.mp hsub
    apply hcomplete
    split_ifs with heq
    · exact htarget
    · apply (h.targets i old (by omega) hold).extends hext
  · intro kept hkept hhead
    apply hext.first kept (by rwa [h.reading]) (h.first kept hkept hhead)

end Next

/-- Reading the files of sub-objects leads each of them to a complete object. -/
theorem readSubs_spec {read : Ident → Registering ObjId} (hread : ReadsFiles read) {id : ObjId}
    {display : String} {subs : List SubObject} {s s' : Registration} {u : Unit} (hs : s.Valid)
    (hid : id ∈ s.reading) (h : Reads (readSubs read id display subs 0) s u s') :
  ReadUpTo s id subs.length s'
  := by
  apply readSubs_invariant [] _ (ReadUpTo.zero hs id) h
  intro i sub t target m _ ht hfile
  obtain ⟨hm, hext, htarget⟩ := hread ht.valid hfile
  apply ht.next hid hm hext htarget

theorem objectAt_append_left {objects more : List Object} {id : ObjId}
    (h : id < objects.length) :
  objectAt (objects ++ more) id = objectAt objects id
  := by
  rw [objectAt, List.getElem?_append_left h, objectAt]

theorem objectAt_concat (objects : List Object) (object : Object) :
  objectAt (objects ++ [object]) objects.length = object
  := by
  rw [objectAt, List.getElem?_concat_length, Option.getD_some]

/-- An added object has the next number. -/
theorem objectAt_addObject (s : Registration) (name : String) (object : Object) :
  objectAt ((s.dropSource name).addObject object).objects s.objects.length = object
  := objectAt_concat s.objects object

/-- The state in which the includes of a new object are read. -/
theorem addObject_valid {s : Registration} (hs : s.Valid) {object : Object}
    (hfresh : object.Fresh) :
  (s.addObject object).Valid
  := by
  have hlength : (s.addObject object).objects.length = s.objects.length + 1 := List.length_append
  constructor
  · rw [hlength, List.range_succ]
    apply hs.order.append_right
  · rw [hlength]
    intro id hid
    rcases List.mem_cons.mp hid with rfl | hid
    · apply Nat.lt_succ_self
    · apply Nat.lt_succ_of_lt (hs.reading id hid)
  · rw [hlength]
    apply Nat.succ_le_succ hs.depth
  · intro id
    rcases Nat.lt_trichotomy id s.objects.length with h | rfl | h
    · apply cast (congrArg _ (objectAt_append_left h).symm)
      apply hs.fresh
    · apply cast (congrArg _ (objectAt_concat s.objects object).symm)
      exact hfresh
    · rw [objectAt_of_le (by rw [hlength]; exact h)]
      exact ⟨rfl, rfl, rfl⟩
  · obtain ⟨rank, hrank⟩ := hs.ranked
    use rank
    intro id hlt hcomplete
    have hne : id ≠ s.objects.length := List.ne_of_not_mem_cons hcomplete
    rw [hlength] at hlt ⊢
    have hid : id < s.objects.length := by omega
    obtain ⟨hbound, hsubs⟩ := hrank id hid (List.not_mem_of_not_mem_cons hcomplete)
    have hdepth : (s.addObject object).reading.length = s.reading.length + 1 := rfl
    refine ⟨by omega, ?_⟩
    intro sub hsub
    have hold : sub ∈ (objectAt s.objects id).subs :=
      cast (congrArg (sub ∈ Object.subs ·) (objectAt_append_left hid)) hsub
    obtain ⟨htarget, hread, hless⟩ := hsubs sub hold
    refine ⟨Nat.lt_succ_of_lt htarget, ?_, hless⟩
    apply List.not_mem_cons_of_ne_of_not_mem (Nat.ne_of_lt htarget) hread

/-- The state in which the innermost object is complete. -/
theorem finish_valid {s : Registration} (hs : s.Valid) {id : ObjId} {reading : List ObjId}
    (hreading : s.reading = id :: reading)
    (hsubs : ∀ sub ∈ (objectAt s.objects id).subs, s.Complete sub.target) :
  Valid { s with reading := s.reading.drop 1 }
  := by
  have hdrop : s.reading.drop 1 = reading := by
    rw [hreading]
    rfl
  have hdepth := hs.depth
  rw [hreading, List.length_cons] at hdepth
  rw [hdrop]
  refine ⟨hs.order, ?_, by exact Nat.le_of_succ_le hdepth, hs.fresh, ?_⟩
  · intro other hother
    apply hs.reading
    rw [hreading]
    apply List.mem_cons_of_mem id hother
  · -- the object is ranked above all that were complete before
    obtain ⟨rank, hrank⟩ := hs.ranked
    use Function.update rank id (s.objects.length - s.reading.length)
    intro other hlt hcomplete
    dsimp only at hlt hcomplete ⊢
    by_cases heq : other = id
    · subst heq
      rw [Function.update_self]
      refine ⟨by rw [hreading, List.length_cons]; omega, ?_⟩
      intro sub hsub
      obtain ⟨htarget, hread⟩ := hsubs sub hsub
      have hrank' := (hrank sub.target htarget hread).1
      rw [hreading] at hread
      rw [Function.update_of_ne (List.ne_of_not_mem_cons hread)]
      exact ⟨htarget, List.not_mem_of_not_mem_cons hread, hrank'⟩
    · have hcomplete' : other ∉ s.reading := by
        rw [hreading]
        apply List.not_mem_cons_of_ne_of_not_mem heq hcomplete
      obtain ⟨hbound, hsubs'⟩ := hrank other hlt hcomplete'
      rw [Function.update_of_ne heq]
      rw [hreading, List.length_cons] at hbound
      refine ⟨by omega, ?_⟩
      intro sub hsub
      obtain ⟨htarget, hread, hless⟩ := hsubs' sub hsub
      rw [hreading] at hread
      rw [Function.update_of_ne (List.ne_of_not_mem_cons hread)]
      exact ⟨htarget, List.not_mem_of_not_mem_cons hread, hless⟩

namespace Opens

variable {read : Ident → Registering ObjId} {file : Ident} {s m : Registration}
  {source : SourceObject} {object : Object} (h : Opens read file s source object m)

include h

/-- The state in which the includes of the new object are read. -/
theorem start_valid (hs : s.Valid) :
  ((s.dropSource file.name).addObject object).Valid
  := by
  have hdropped : (s.dropSource file.name).Valid :=
    ⟨hs.order, hs.reading, hs.depth, hs.fresh, hs.ranked⟩
  exact addObject_valid hdropped (Object.ofSource_fresh h.declared)

/-- Behind an opened file all its sub-objects have been read. -/
theorem readUpTo (hread : ReadsFiles read) (hs : s.Valid) :
  ReadUpTo ((s.dropSource file.name).addObject object) s.objects.length object.subs.length m
  := readSubs_spec hread (h.start_valid hs) List.mem_cons_self h.subs

/-- All sub-objects of the new object lead to complete objects. -/
theorem targets (hread : ReadsFiles read) (hs : s.Valid) :
  ∀ sub ∈ (objectAt m.objects s.objects.length).subs, m.Complete sub.target
  := by
  have hdone := h.readUpTo hread hs
  have hself := hdone.self
  rw [objectAt_addObject] at hself
  intro sub hsub
  obtain ⟨i, hi⟩ := List.mem_iff_getElem?.mp hsub
  apply hdone.targets i sub _ hi
  rw [← Object.length_subs_of_untargeted hself]
  exact (List.getElem?_eq_some_iff.mp hi).1

/-- Opening a file keeps the state valid and makes the new object complete. -/
theorem finish_spec (hread : ReadsFiles read) (hs : s.Valid) :
  Valid { m with reading := m.reading.drop 1 }
    ∧ s.Extends { m with reading := m.reading.drop 1 }
    ∧ Complete { m with reading := m.reading.drop 1 } s.objects.length
  := by
  have hdone := h.readUpTo hread hs
  have hreading : m.reading = s.objects.length :: s.reading := hdone.reading
  have hdrop : m.reading.drop 1 = s.reading := by
    rw [hreading]
    rfl
  have hlength : s.objects.length < m.objects.length := by
    have hle := hdone.length
    rw [show ((s.dropSource file.name).addObject object).objects.length = s.objects.length + 1
      from List.length_append] at hle
    exact hle
  refine ⟨finish_valid hdone.valid hreading (h.targets hread hs), ⟨hdrop, hlength.le, ?_, ?_⟩,
    hlength, ?_⟩
  · intro other hlt
    have hlt' : other < ((s.dropSource file.name).addObject object).objects.length :=
      hlt.trans_le (by rw [addObject, List.length_append]; exact Nat.le_add_right ..)
    rw [hdone.others other hlt' (Nat.ne_of_lt hlt)]
    apply objectAt_append_left hlt
  · intro kept hkept hhead
    apply hdone.first kept (List.mem_cons_of_mem _ hkept)
    show (s.order ++ [s.objects.length]).head? = some kept
    rw [List.head?_append, hhead, Option.some_or]
  · show s.objects.length ∉ m.reading.drop 1
    rw [hdrop]
    intro hmem
    apply Nat.lt_irrefl _ (hs.reading _ hmem)

end Opens

/-- Reading a file keeps the state valid and makes the object of the file complete. -/
theorem read_spec (depth : Nat) :
  ReadsFiles (read depth)
  := by
  induction depth with
  | zero =>
    intro file s id s' hs h
    rcases reads_read h with hagain | ⟨lower, _, _, _, hdepth, _⟩
    · obtain ⟨_, hs', hext, hcomplete, _⟩ := again_spec hs hagain
      exact ⟨hs', hext, hcomplete⟩
    · cases hdepth
  | succ depth ih =>
    intro file s id s' hs h
    rcases reads_read h with hagain | ⟨lower, source, object, m, hdepth, hopens, rfl, rfl⟩
    · obtain ⟨_, hs', hext, hcomplete, _⟩ := again_spec hs hagain
      exact ⟨hs', hext, hcomplete⟩
    · cases hdepth
      exact hopens.finish_spec ih hs

end Registering

/-! ### Registered builds -/

/-- What holds of the build of a registered program: every object stands once in the order of
layout and the root stands first, all includes lead to objects, and they go down in rank. -/
structure Build.Registered (build : Build) : Prop where
  order : build.order.Perm (List.range build.objects.length)
  first : build.order.head? = some Build.root
  nonempty : 0 < build.objects.length
  fresh : ∀ id, (build.object id).Fresh
  ranked : ∃ rank, Ranked build.objects [] rank
  totals : build.totals = []

namespace Build.Registered

variable {build : Build} (h : build.Registered)

include h

/-- The order of layout names all objects and no others. -/
theorem mem_order {id : ObjId} :
  id ∈ build.order ↔ id < build.objects.length
  := by
  rw [h.order.mem_iff, List.mem_range]

theorem nodup_order :
  build.order.Nodup
  := by
  rw [h.order.nodup_iff]
  apply List.nodup_range

end Build.Registered

/-- The state in which nothing has been read. -/
def Program.unread (program : Program) : Registration := { sources := program.objects }

theorem Program.unread_valid (program : Program) :
  program.unread.Valid
  where
  order := List.Perm.refl _
  reading := nofun
  depth := le_rfl
  fresh _ := ⟨rfl, rfl, rfl⟩
  ranked := ⟨fun _ => 0, nofun⟩

/-- A program is registered by opening its root. -/
theorem Program.register_opens {program : Program} {build : Build}
    (h : program.register = .ok build) :
  ∃ depth source object m,
    Registering.Opens (Registering.read depth) { name := program.root } program.unread source
      object m
    ∧ build = { objects := m.objects, order := m.order }
  := by
  obtain ⟨⟨id, s'⟩, hread, h⟩ := ok_of_bind h
  cases h
  rcases Registering.reads_read hread with hagain | ⟨depth, source, object, m, _, hopens, _, rfl⟩
  · cases ((Registering.reads_again_none rfl).mp hagain).1
  · exact ⟨depth, source, object, m, hopens, rfl⟩

/-- A registered program is a build in which all objects are complete and in order. -/
theorem Program.register_spec {program : Program} {build : Build}
    (h : program.register = .ok build) :
  build.Registered
  := by
  obtain ⟨depth, source, object, m, hopens, rfl⟩ := program.register_opens h
  have hdone := hopens.readUpTo (Registering.read_spec depth) program.unread_valid
  obtain ⟨hvalid, hext, hcomplete⟩ :=
    hopens.finish_spec (Registering.read_spec depth) program.unread_valid
  have hranked := hvalid.ranked
  rw [hext.reading] at hranked
  exact
    { order := hvalid.order
      first := hdone.first Build.root List.mem_cons_self rfl
      nonempty := hcomplete.1
      fresh := hvalid.fresh
      ranked := hranked
      totals := rfl }

end SpinHub
