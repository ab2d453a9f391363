import Mathlib
import SpinHub.Proofs.AddressableFrames
import SpinHub.Proofs.HubAddresses
import SpinHub.Proofs.IncludeGraph
import SpinHub.Proofs.KeptStorage
import SpinHub.Proofs.MemoizedConstants

/-!
# Tiled frames

The frame of a method has a slot for its result, one for each parameter and one for each local, one
behind another. So the slots fill the frame that a call reserves, and in the body every declared
name stands for its own slot. A result without a name is called RESULT, unless something else is:
files never are, as their names have an extension.
-/

namespace SpinHub

/-! ### Slots -/

/-- A slot of a frame. Only the result may be without a name. -/
structure FrameSlot where
  name? : Option Ident
  offset : Nat
  bytes : Nat

namespace FrameSlot

/-- A byte of the frame belongs to the slot. -/
def Covers (slot : FrameSlot) (x : Nat) : Prop := slot.offset ≤ x ∧ x < slot.offset + slot.bytes

/-- What a method declares of a slot. -/
def shape (slot : FrameSlot) : Option Ident × Nat := (slot.name?, slot.bytes)

/-- Slots fill the first `size` bytes of a frame in their order, without gaps and without
overlaps. -/
structure Tile (slots : List FrameSlot) (size : Nat) : Prop where
  covers : ∀ x, x < size ↔ ∃ slot ∈ slots, slot.Covers x
  ordered : slots.Pairwise fun slot later => slot.offset + slot.bytes ≤ later.offset
  apart : slots.Pairwise fun slot later => ∀ x, ¬ (slot.Covers x ∧ later.Covers x)

/-- Slots of the given shapes, one behind another. -/
def place : Nat → List (Option Ident × Nat) → List FrameSlot
  | _, [] => []
  | start, (name?, bytes) :: rest => { name?, offset := start, bytes } :: place (start + bytes) rest

/-- The bytes of all shapes. -/
def room (shapes : List (Option Ident × Nat)) : Nat := total (shapes.map Prod.snd)

/-- Slots in turn need the room of both runs. -/
theorem room_append (front back : List (Option Ident × Nat)) :
  room (front ++ back) = room front + room back
  := by
  rw [room, List.map_append, total_append, room, room]

/-- Slots of a second run stand behind those of the first one. -/
theorem place_append (start : Nat) (front back : List (Option Ident × Nat)) :
  place start (front ++ back) = place start front ++ place (start + room front) back
  := by
  induction front generalizing start with
  | nil => rfl
  | cons first rest ih =>
    have hroom : start + room (first :: rest) = start + first.2 + room rest :=
      (Nat.add_assoc start first.2 (room rest)).symm
    rw [List.cons_append, place, place, ih, hroom, List.cons_append]

/-- Placing slots keeps their names and sizes. -/
theorem map_shape_place (start : Nat) (shapes : List (Option Ident × Nat)) :
  (place start shapes).map shape = shapes
  := by
  induction shapes generalizing start with
  | nil => rfl
  | cons first rest ih =>
    rw [place, List.map_cons, ih]
    rfl

/-- Slots in a row cover the bytes from their start up to their end. -/
theorem covers_place (start : Nat) (shapes : List (Option Ident × Nat)) (x : Nat) :
  (∃ slot ∈ place start shapes, slot.Covers x) ↔ start ≤ x ∧ x < start + room shapes
  := by
  induction shapes generalizing start with
  | nil =>
    constructor
    · rintro ⟨slot, hslot, _⟩
      cases hslot
    · rintro ⟨hle, hlt⟩
      cases Nat.not_lt.mpr hle hlt
  | cons first rest ih =>
    have hroom : room (first :: rest) = first.2 + room rest := rfl
    rw [place, List.exists_mem_cons_iff, ih, hroom]
    dsimp only [Covers]
    omega

/-- No slot stands before the start. -/
theorem le_offset_of_mem_place {start : Nat} {shapes : List (Option Ident × Nat)}
    {slot : FrameSlot} (h : slot ∈ place start shapes) :
  start ≤ slot.offset
  := by
  induction shapes generalizing start with
  | nil => cases h
  | cons first rest ih =>
    rcases List.mem_cons.mp h with rfl | hrest
    · apply Nat.le_refl
    · apply (Nat.le_add_right start first.2).trans (ih hrest)

/-- Each slot ends before the next one starts. -/
theorem place_ordered (start : Nat) (shapes : List (Option Ident × Nat)) :
  (place start shapes).Pairwise fun slot later => slot.offset + slot.bytes ≤ later.offset
  := by
  induction shapes generalizing start with
  | nil => apply List.Pairwise.nil
  | cons first rest ih =>
    apply List.Pairwise.cons _ (ih (start + first.2))
    intro later hlater
    apply le_offset_of_mem_place hlater

/-- Slots that are placed one behind the other tile their room. -/
theorem place_tile (shapes : List (Option Ident × Nat)) :
  Tile (place 0 shapes) (room shapes)
  where
  covers x := by
    rw [covers_place, Nat.zero_add]
    constructor
    · intro h
      use Nat.zero_le x
    · rintro ⟨_, h⟩
      exact h
  ordered := place_ordered 0 shapes
  apart := by
    apply (place_ordered 0 shapes).imp
    rintro slot later hle x ⟨⟨_, hend⟩, ⟨hstart, _⟩⟩
    omega

end FrameSlot

open FrameSlot (place room)

/-! ### Scopes -/

namespace Scope

/-- The names of slots with their offsets. -/
def ofSlots (slots : List FrameSlot) : Scope :=
  slots.filterMap fun slot => slot.name?.map fun name => (nameKey name.name, (slot.offset : Int))

/-- The entries of a scope are the slots with names. -/
theorem mem_ofSlots {slots : List FrameSlot} {entry : String × Int} :
  entry ∈ ofSlots slots ↔ ∃ slot ∈ slots, ∃ name ∈ slot.name?,
    entry = (nameKey name.name, (slot.offset : Int))
  := by
  rw [ofSlots, List.mem_filterMap]
  simp only [Option.map_eq_some_iff, Option.mem_def, eq_comm (a := entry)]

/-- A scope has the names of slots added to it, each under a key of its own. -/
structure Adds (scope : Scope) (slots : List FrameSlot) (scope' : Scope) : Prop where
  entries : scope' = scope ++ ofSlots slots
  distinct : (scope.map Prod.fst).Nodup → (scope'.map Prod.fst).Nodup

theorem Adds.refl (scope : Scope) :
  scope.Adds [] scope
  := ⟨(List.append_nil scope).symm, id⟩

/-- Slots that are added in turn are added as one run. -/
theorem Adds.trans {scope scope' scope'' : Scope} {slots slots' : List FrameSlot}
    (h : scope.Adds slots scope') (h' : scope'.Adds slots' scope'') :
  scope.Adds (slots ++ slots') scope''
  := by
  constructor
  · rw [h'.entries, h.entries, ofSlots, ofSlots, ofSlots, List.filterMap_append, List.append_assoc]
  · intro hdistinct
    apply h'.distinct (h.distinct hdistinct)

/-- A slot is added under a key that was free. -/
theorem add_adds {scope scope' : Scope} {name : Ident} {offset : Nat} {object : Object}
    (h : scope.add name offset object = .ok scope') (bytes : Nat) :
  scope.Adds [{ name? := some name, offset, bytes }] scope'
  := by
  rw [add] at h
  split_ifs at h with htaken
  cases h
  constructor
  · rfl
  · intro hdistinct
    rw [not_or, Option.not_isSome_iff_eq_none, List.lookup_eq_none_iff] at htaken
    rw [List.map_append]
    apply hdistinct.append (List.nodup_singleton _)
    intro key hkey hsame
    obtain ⟨entry, hentry, rfl⟩ := List.mem_map.mp hkey
    have hfree := htaken.1 entry hentry
    rw [List.mem_singleton.mp hsame] at hfree
    simp at hfree

/-- Under distinct keys every entry is found. -/
theorem lookup_of_mem {scope : Scope} (hdistinct : (scope.map Prod.fst).Nodup) {key : String}
    {offset : Int} (h : (key, offset) ∈ scope) :
  scope.lookup key = some offset
  := by
  obtain ⟨front, back, rfl⟩ := List.append_of_mem h
  apply List.lookup_eq_some_iff.mpr
  use front, back, rfl
  intro earlier hearlier
  rw [List.map_append, List.map_cons] at hdistinct
  rw [bne_iff_ne]
  rintro rfl
  apply List.disjoint_of_nodup_append hdistinct (List.mem_map_of_mem hearlier)
  apply List.mem_cons_self

end Scope

/-- A name that is in the frame under any spelling stands for its slot. -/
theorem lookup?_of_slot {objects : List Object} {id : ObjId} {scope : Scope} (name : String)
    {spelled : String} {offset : Int} (hlocal : isLocalLabel name = false)
    (hspelled : nameKey spelled = nameKey name) (h : scope.lookup (nameKey name) = some offset) :
  lookup? objects id scope spelled = some (.slot offset)
  := by
  have hplain : isLocalLabel spelled = false := by
    rw [← isLocalLabel_nameKey, hspelled, isLocalLabel_nameKey, hlocal]
  have hkey : (objectAt objects id).key spelled = nameKey name := by
    rw [Object.key, hplain, ← hspelled]
    rfl
  rw [lookup?]
  simp only [hkey, h]

/-! ### Counts -/

/-- The longs of a local, as its declaration says when it is evaluated from a memo. -/
def LocalDecl.Counts (site : Site) (memo : Memo) (decl : LocalDecl) (longs : Nat) : Prop :=
  1 ≤ longs ∧ ((site.evalIntOr 1 decl.count).run.run memo).1 = .ok (longs : Int)

/-- From every sound memo, a number has the result that it has from the start. -/
theorem Site.run_evalIntOr (site : Site) (default : Int) (e : Option Exp) {base memo : Memo}
    (hmemo : Sound site.objects base [] memo) :
  ∃ memo', (site.evalIntOr default e).run.run memo
      = (((site.evalIntOr default e).run.run base).1, memo')
    ∧ Sound site.objects base [] memo'
  := by
  cases e with
  | none => use memo, rfl
  | some e =>
    obtain ⟨memo', hrun, hsound⟩ := site.run_eval e hmemo
    use memo'
    refine ⟨?_, hsound⟩
    rw [evalIntOr, evalInt, run_bind, run_bind, hrun]
    rcases (site.eval e).run.run base with ⟨fault | value, after⟩
    · rfl
    · dsimp only
      cases value.toWord <;> rfl

/-- The longs that a local is given are those that its declaration counts. -/
theorem LocalDecl.longs_counts {site : Site} {decl : LocalDecl} {longs : Nat}
    {base memo memo' : Memo} (hmemo : Sound site.objects base [] memo)
    (h : Yields (decl.longs site) memo longs memo') :
  decl.Counts site base longs ∧ Sound site.objects base [] memo'
  := by
  obtain ⟨count, m, hcount, hrest⟩ := yields_bind.mp h
  split_ifs at hrest with hsmall
  · cases yields_failAt hrest
  · obtain ⟨rfl, rfl⟩ := yields_pure.mp hrest
    obtain ⟨m', hrun, hsound⟩ := site.run_evalIntOr 1 decl.count hmemo
    rw [Yields, hrun] at hcount
    obtain ⟨hvalue, rfl⟩ := Prod.mk.inj hcount
    refine ⟨⟨by omega, ?_⟩, hsound⟩
    rw [hvalue, Int.toNat_of_nonneg (by omega)]

/-! ### Frames -/

/-- The slots that parameters declare. -/
def paramShapes (params : List Ident) : List (Option Ident × Nat) :=
  params.map fun param => (some param, 4)

/-- The slots that locals of the given longs declare. -/
def localShapes (locals : List LocalDecl) (longs : List Nat) : List (Option Ident × Nat) :=
  (locals.zip longs).map fun entry => (some entry.1.name, 4 * entry.2)

/-- The slots that a method declares: its result, its parameters and its locals. -/
def Method.shapes (method : Method) (longs : List Nat) : List (Option Ident × Nat) :=
  (method.result, 4) :: (paramShapes method.params ++ localShapes method.locals longs)

/-- Each parameter is a long. -/
theorem room_paramShapes (params : List Ident) :
  room (paramShapes params) = 4 * params.length
  := by
  induction params with
  | nil => rfl
  | cons param rest ih =>
    have hroom : room (paramShapes (param :: rest)) = 4 + room (paramShapes rest) := rfl
    rw [hroom, ih, List.length_cons]
    omega

/-- Parameters get slots one behind the other. -/
theorem addParams_adds {object : Object} {scope scope' : Scope} {offset : Nat}
    {params : List Ident} (h : addParams object scope offset params = .ok scope') :
  scope.Adds (place offset (paramShapes params)) scope'
  := by
  induction params generalizing scope offset with
  | nil =>
    cases h
    apply Scope.Adds.refl
  | cons param rest ih =>
    obtain ⟨next, hnext, hrest⟩ := ok_of_bind h
    apply (Scope.add_adds hnext 4).trans (ih hrest)

/-- Locals are added behind what is there, each with the longs that it counts. -/
theorem addLocals_adds {site : Site} {start : Nat} {frame frame' : Frame}
    {locals : List LocalDecl} {base memo memo' : Memo} (hmemo : Sound site.objects base [] memo)
    (h : Yields (addLocals site start frame locals) memo frame' memo') :
  ∃ longs, List.Forall₂ (LocalDecl.Counts site base) locals longs
    ∧ frame.scope.Adds (place (start + frame.localsSize) (localShapes locals longs)) frame'.scope
    ∧ frame'.localsSize = frame.localsSize + room (localShapes locals longs)
  := by
  induction locals generalizing frame memo with
  | nil =>
    obtain ⟨rfl, _⟩ := yields_pure.mp h
    exact ⟨[], .nil, .refl _, rfl⟩
  | cons decl rest ih =>
    obtain ⟨first, m₁, hfirst, h⟩ := yields_bind.mp h
    obtain ⟨scope, m₂, hscope, hrest⟩ := yields_bind.mp h
    obtain ⟨hadd, rfl⟩ := yields_liftM.mp hscope
    obtain ⟨hcounts, hsound⟩ := LocalDecl.longs_counts hmemo hfirst
    obtain ⟨longs, hlongs, hadds, hsize⟩ := ih hsound hrest
    use first :: longs, .cons hcounts hlongs
    constructor
    · have hnext := (Scope.add_adds hadd (4 * first)).trans hadds
      rw [← Nat.add_assoc] at hnext
      exact hnext
    · have hroom : room (localShapes (decl :: rest) (first :: longs))
          = 4 * first + room (localShapes rest longs) := rfl
      rw [hsize, hroom, Nat.add_assoc]

namespace Method

/-- The result has the first long of the frame. -/
theorem resultScope_adds {method : Method} {object : Object} {scope : Scope}
    (h : method.resultScope object = .ok scope) :
  Scope.Adds [] [{ name? := method.result, offset := 0, bytes := 4 }] scope
  := by
  rw [resultScope] at h
  split at h
  · rename_i result hresult
    rw [hresult]
    apply Scope.add_adds h 4
  · rename_i hresult
    cases h
    rw [hresult]
    exact ⟨rfl, id⟩

/-- What a frame is made of: the slots that the method declares, and behind them the name RESULT for
a result that has none, if nothing else is called so. -/
theorem frame_cases {method : Method} {site : Site} {frame : Frame} {memo memo' : Memo}
    (h : Yields (method.frame site) memo frame memo') :
  ∃ longs scope, List.Forall₂ (LocalDecl.Counts site memo) method.locals longs
    ∧ frame.localsSize = room (localShapes method.locals longs)
    ∧ Scope.Adds [] (place 0 (method.shapes longs)) scope
    ∧ (method.result = none ∧ lookup? site.objects site.obj scope "RESULT" = none
        ∧ scope.Adds [{ name? := some { name := "RESULT", pos := method.name.pos }
                        offset := 0, bytes := 4 }] frame.scope
      ∨ ¬ (method.result = none ∧ lookup? site.objects site.obj scope "RESULT" = none)
        ∧ frame.scope = scope)
  := by
  rw [frame_eq] at h
  obtain ⟨start, m₁, hlifted, hfrom⟩ := yields_bind.mp h
  obtain ⟨hstart, rfl⟩ := yields_liftM.mp hlifted
  obtain ⟨scope, m₂, hlifted', hfrom'⟩ := yields_bind.mp hfrom
  obtain ⟨hparams, rfl⟩ := yields_liftM.mp hlifted'
  obtain ⟨full, m₃, hlocals, hrest⟩ := yields_bind.mp hfrom'
  obtain ⟨longs, hlongs, hadds, hsize⟩ := addLocals_adds (Sound.refl _ _) hlocals
  rw [Nat.zero_add] at hsize
  have hall : Scope.Adds [] (place 0 (method.shapes longs)) full.scope := by
    have hslots := (resultScope_adds hstart).trans ((addParams_adds hparams).trans hadds)
    rw [Nat.add_zero, ← room_paramShapes, ← FrameSlot.place_append] at hslots
    exact hslots
  use longs, full.scope, hlongs
  have hnone : (method.result.isNone
      && (lookup? site.objects site.obj full.scope "RESULT").isNone) = true
      ↔ method.result = none ∧ lookup? site.objects site.obj full.scope "RESULT" = none := by
    rw [Bool.and_eq_true, Option.isNone_iff_eq_none, Option.isNone_iff_eq_none]
  split_ifs at hrest with himplicit
  · obtain ⟨named, m₄, hnamed, hpure⟩ := yields_bind.mp hrest
    obtain ⟨hnamed, _⟩ := yields_liftM.mp hnamed
    obtain ⟨rfl, _⟩ := yields_pure.mp hpure
    obtain ⟨hresult, hfree⟩ := hnone.mp himplicit
    use hsize, hall
    left
    use hresult, hfree
    apply Scope.add_adds hnamed 4
  · obtain ⟨rfl, _⟩ := yields_pure.mp hrest
    use hsize, hall
    right
    use mt hnone.mpr himplicit

/-- The room of a frame is that of its locals, of its parameters and of its result. -/
theorem room_shapes (method : Method) (longs : List Nat) :
  room (method.shapes longs)
    = room (localShapes method.locals longs) + (method.params.length + 1) * 4
  := by
  have hroom : room (method.shapes longs)
      = 4 + room (paramShapes method.params ++ localShapes method.locals longs) := rfl
  rw [hroom, FrameSlot.room_append, room_paramShapes]
  omega

/-- The names of slots are those of the result, of the parameters and of the locals. -/
theorem mem_shapes {method : Method} {longs : List Nat} {name : Ident} {bytes : Nat}
    (h : (some name, bytes) ∈ method.shapes longs) :
  method.result = some name ∨ name ∈ method.params ++ method.locals.map (·.name)
  := by
  rw [List.mem_append]
  rcases List.mem_cons.mp h with hresult | hrest
  · left
    exact (congrArg Prod.fst hresult).symm
  · right
    rcases List.mem_append.mp hrest with hparam | hlocal
    · left
      obtain ⟨param, hmem, hshape⟩ := List.mem_map.mp hparam
      cases hshape
      exact hmem
    · right
      obtain ⟨⟨decl, count⟩, hmem, hshape⟩ := List.mem_map.mp hlocal
      cases hshape
      apply List.mem_map_of_mem (List.of_mem_zip hmem).1

end Method

/-- The slots that a method declares tile the frame that a call reserves, the result in front. The
scope leads from the declared names to their slots, and so does each spelling of them in the body.
A result without a name goes by RESULT if nothing else that the method or its object declares
does. -/
structure Frame.Tiled (frame : Frame) (method : Method) (site : Site) (memo : Memo)
    (slots : List FrameSlot) : Prop where
  declared : ∃ longs, List.Forall₂ (LocalDecl.Counts site memo) method.locals longs
    ∧ slots.map FrameSlot.shape = method.shapes longs
  first : slots.head?.map FrameSlot.offset = some 0
  tile : FrameSlot.Tile slots method.frameSize
  recorded : ∀ slot ∈ slots, ∀ name ∈ slot.name?,
    frame.scope.lookup (nameKey name.name) = some (slot.offset : Int)
  resolves : ∀ slot ∈ slots, ∀ name ∈ slot.name?, isLocalLabel name.name = false →
    ∀ spelled, nameKey spelled = nameKey name.name →
      Site.lookup? { site with scope := frame.scope } spelled = some (.slot slot.offset)
  unnamed : method.result = none →
    (∀ name ∈ method.params ++ method.locals.map (·.name), nameKey name.name ≠ "RESULT") →
    site.object.find? "RESULT" = none → ∀ spelled, nameKey spelled = "RESULT" →
      Site.lookup? { site with scope := frame.scope } spelled = some (.slot 0)

namespace Method

/-- RESULT is free in a scope of slots if no slot, symbol or file is called so. -/
theorem lookup?_result {method : Method} {site : Site} {longs : List Nat} {scope : Scope}
    (hscope : Scope.Adds [] (place 0 (method.shapes longs)) scope) (hresult : method.result = none)
    (hnames : ∀ name ∈ method.params ++ method.locals.map (·.name), nameKey name.name ≠ "RESULT")
    (hobject : site.object.find? "RESULT" = none) (hfiles : fileId? site.objects "RESULT" = none) :
  lookup? site.objects site.obj scope "RESULT" = none
  := by
  have hkey : (objectAt site.objects site.obj).key "RESULT" = "RESULT" := by
    rw [Object.key]
    rfl
  have hslots : scope.lookup "RESULT" = none := by
    apply List.lookup_eq_none_iff.mpr
    intro entry hentry
    rw [hscope.entries, List.nil_append, Scope.mem_ofSlots] at hentry
    obtain ⟨slot, hslot, name, hname, rfl⟩ := hentry
    have hshape := List.mem_map_of_mem (f := FrameSlot.shape) hslot
    rw [FrameSlot.map_shape_place, FrameSlot.shape, Option.mem_def.mp hname] at hshape
    rw [bne_iff_ne]
    rcases mem_shapes hshape with hnamed | hdeclared
    · rw [hresult] at hnamed
      cases hnamed
    · apply (hnames name hdeclared).symm
  rw [Site.object] at hobject
  rw [lookup?]
  simp only [hkey, hslots, hobject, hfiles, Option.map_none]

/-- The frame of a method is tiled, where no file is called RESULT. -/
theorem frame_tiled {method : Method} {site : Site} {frame : Frame} {memo memo' : Memo}
    (hfiles : fileId? site.objects "RESULT" = none)
    (h : Yields (method.frame site) memo frame memo')
    (hsize : frame.localsSize = method.localsSize) :
  ∃ slots, frame.Tiled method site memo slots
  := by
  obtain ⟨longs, scope, hlongs, hlocals, hscope, hcases⟩ := frame_cases h
  have hadds : ∃ more, Scope.Adds scope more frame.scope := by
    rcases hcases with ⟨_, _, hadds⟩ | ⟨_, hsame⟩
    · exact ⟨_, hadds⟩
    · rw [hsame]
      exact ⟨[], .refl scope⟩
  obtain ⟨more, hmore⟩ := hadds
  have hdistinct := hmore.distinct (hscope.distinct List.nodup_nil)
  have hrecorded : ∀ slot ∈ place 0 (method.shapes longs), ∀ name ∈ slot.name?,
      frame.scope.lookup (nameKey name.name) = some (slot.offset : Int) := by
    intro slot hslot name hname
    apply Scope.lookup_of_mem hdistinct
    rw [hmore.entries, hscope.entries]
    apply List.mem_append_left
    apply Scope.mem_ofSlots.mpr
    use slot, hslot, name, hname
  use place 0 (method.shapes longs)
  constructor
  · use longs, hlongs
    apply FrameSlot.map_shape_place
  · rfl
  · have hroom : room (method.shapes longs) = method.frameSize := by
      rw [room_shapes, ← hlocals, hsize, frameSize]
    rw [← hroom]
    apply FrameSlot.place_tile
  · exact hrecorded
  · intro slot hslot name hname hlocal spelled hspelled
    apply lookup?_of_slot name.name hlocal hspelled (hrecorded slot hslot name hname)
  · intro hresult hnames hobject spelled hspelled
    have hfree := lookup?_result hscope hresult hnames hobject hfiles
    rcases hcases with ⟨_, _, hnamed⟩ | ⟨htaken, _⟩
    · apply lookup?_of_slot "RESULT" rfl hspelled
      apply Scope.lookup_of_mem hdistinct
      rw [hnamed.entries]
      apply List.mem_append_right
      apply List.mem_singleton.mpr rfl
    · cases htaken ⟨hresult, hfree⟩

end Method

/-! ### Files -/

namespace FileName

/-- The key of a file name ends in the extension. -/
theorem stem?_key (name : String) :
  (stem? (key name)).isSome
  := by
  have hnormal : (stem? (normalize name)).isSome := by
    delta normalize
    cases hstem : stem? name with
    | some stem => rw [hstem, Option.isSome_some]
    | none => rw [stem?_append, Option.isSome_some]
  rw [key, stem?_nameKey, Option.isSome_map, hnormal]

end FileName

/-- No phase renames a file. -/
theorem Build.Agree.file_enduring :
  Enduring (Agree Object.file)
  where
  toTolerant := tolerant
  subSlots b id _ := admits id b _ rfl
  table b id _ := admits id b _ rfl
  methodSlots b id := admits id b _ rfl
  hubAddress b id _ := admits id b _ rfl
  declared b id _ _ _ := Admits.declared (.of_comp Object.file (admits id)) b
  vars b id _ _ := admits id b _ rfl
  written id := .of_comp Object.file (admits id)
  compiled id := .of_comp Object.file (admits id)

/-- A name without the extension of source files is not that of a file. -/
theorem Program.fileId?_eq_none {program : Program} {registered build : Build}
    (h : program.register = .ok registered) (hagree : registered.Agree Object.file build)
    {key : String} (hkey : FileName.stem? key = none) :
  fileId? build.objects key = none
  := by
  apply List.findIdx?_eq_none_iff.mpr
  intro object hobject
  obtain ⟨id, hid, hsame⟩ := List.mem_iff_getElem.mp hobject
  have hfile : object.file = (registered.object id).file := by
    rw [← hagree.objects id, Build.object, objectAt, List.getElem?_eq_getElem hid, hsame,
      Option.getD_some]
  rw [hagree.length] at hid
  obtain ⟨source, _, hsource⟩ := (register_builds h).declared id hid
  have hextended := FileName.stem?_key source.file
  rw [← Object.fileKey_ofSource hsource, Object.fileKey, ← hfile] at hextended
  rw [decide_eq_false_iff_not]
  rintro rfl
  rw [hkey] at hextended
  cases hextended

/-! ### Methods -/

namespace Method

/-- The code of a method was written in object `id` of a build for an offset, with the names of a
frame in its body, and the bytes of its locals are those of the frame. -/
def WrittenWith (method : Method) (config : Config) (build : Build) (id : ObjId) (base : Int)
    (frame : Frame) : Prop :=
  ∃ memo draft memo', Yields (method.frame (build.site id)) build.memo frame memo
    ∧ Yields (Site.draft { build.site id with scope := frame.scope } method.body) memo draft memo'
    ∧ draft.finish base config.roundLimit = .ok method.code
    ∧ frame.localsSize = method.localsSize

/-- The code of a method was written in object `id` of a build with a frame that is tiled. -/
def Seated (method : Method) (config : Config) (build : Build) (id : ObjId) (base : Int) : Prop :=
  ∃ frame slots, method.WrittenWith config build id base frame
    ∧ frame.Tiled method (build.site id) build.memo slots

/-- What compiling fills in of a method makes it one with a tiled frame. -/
theorem seated_of_compile {method : Method} {config : Config} {build : Build} {id : ObjId}
    {base : Int} {compiled : CompiledMethod} {memo : Memo}
    (hfiles : fileId? build.objects "RESULT" = none)
    (h : Yields (method.compile config (build.site id) base) build.memo compiled memo) :
  Seated { method with localsSize := compiled.localsSize, code := compiled.code } config build id
    base
  := by
  obtain ⟨frame, draft, m₁, m₂, hframe, hdraft, hfinish, hsize⟩ := yields_compile h
  set filled : Method := { method with localsSize := compiled.localsSize, code := compiled.code }
  have hfilled : Yields (filled.frame (build.site id)) build.memo frame m₁ := hframe
  obtain ⟨slots, hslots⟩ := frame_tiled hfiles hfilled hsize
  use frame, slots
  constructor
  · use m₁, draft, m₂, hfilled, hdraft, hfinish
  · exact hslots

end Method

/-! ### Runs of phases -/

namespace Build

/-- Some phases lead from a build to another one. -/
def RunsTo (build build' : Build) : Prop :=
  ∃ phases : List Phase, phases.foldl Phase.run build = build'

theorem RunsTo.refl (build : Build) :
  build.RunsTo build
  := ⟨[], rfl⟩

theorem RunsTo.trans {a b c : Build} (hab : a.RunsTo b) (hbc : b.RunsTo c) :
  a.RunsTo c
  := by
  obtain ⟨front, rfl⟩ := hab
  obtain ⟨back, rfl⟩ := hbc
  use front ++ back
  apply List.foldl_append

/-- A phase that succeeds is a run. -/
theorem RunsTo.of_yields (phase : Phase) {s s' : Build} {u : Unit}
    (h : Yields phase.step s u s') :
  s.RunsTo s'
  := ⟨[phase], congrArg Prod.snd h⟩

/-- No run of phases changes the file names. -/
theorem RunsTo.files {build build' : Build} (h : build.RunsTo build') :
  build.Agree Object.file build'
  := by
  obtain ⟨phases, rfl⟩ := h
  apply Phase.foldl_run_steady Agree.file_enduring

end Build

namespace Step

open Build (RunsTo)

/-- Giving out slots is a run of phases. -/
theorem placeSlots_runsTo {ids : List ObjId} {s s' : Build} {u : PUnit}
    (h : Yields (placeSlots ids) s u s') :
  s.RunsTo s'
  := by
  induction ids generalizing s with
  | nil =>
    obtain ⟨_, rfl⟩ := yields_pure.mp h
    apply RunsTo.refl
  | cons id rest ih =>
    obtain ⟨_, m, hslots, hrest⟩ := yields_bind.mp h
    obtain ⟨_, m', hsubs, hmethods⟩ := yields_bind.mp hslots
    have hplaced := (RunsTo.of_yields (.subs id) hsubs).trans (.of_yields (.methods id) hmethods)
    apply hplaced.trans (ih hrest)

/-- Compiling the methods of an object is a run of phases. -/
theorem compileMethods_runsTo {config : Config} {id : ObjId} {size : Nat} {s s' : Build}
    (h : Yields (compileMethods config id) s size s') :
  s.RunsTo s'
  := by
  apply RunsTo.of_yields (.code config id)
  exact yields_bind.mpr ⟨size, s', h, rfl⟩

/-- An object is compiled by phases, and its methods last. -/
theorem compileObject_runsTo {config : Config} {id : ObjId} {address size : Nat} {s s' : Build}
    (h : Yields (compileObject config id address) s size s') :
  ∃ m, s.RunsTo m ∧ Yields (compileMethods config id) m size s'
  := by
  obtain ⟨_, m₁, haddress, h⟩ := yields_bind.mp h
  obtain ⟨_, m₂, hmeasure, h⟩ := yields_bind.mp h
  obtain ⟨_, m₃, hvars, h⟩ := yields_bind.mp h
  obtain ⟨_, m₄, hwrite, hmethods⟩ := yields_bind.mp h
  use m₄
  refine ⟨?_, hmethods⟩
  apply RunsTo.trans (.of_yields (.hubAddress id address) haddress)
  apply RunsTo.trans (.of_yields (.measure config id) hmeasure)
  apply RunsTo.trans (.of_yields (.vars id) hvars)
  apply RunsTo.of_yields (.write config id) hwrite

/-- Objects that are compiled one after another are as compiling their methods left them. -/
theorem compileObjects_runsTo {config : Config} {address : Nat} {ids : List ObjId} {s s' : Build}
    {u : Unit} (hnodup : ids.Nodup) (hids : ∀ id ∈ ids, id < s.objects.length)
    (h : Yields (compileObjects config address ids) s u s') :
  (∀ id, id ∉ ids → s'.object id = s.object id)
    ∧ ∀ id ∈ ids, ∃ m size after, s.RunsTo m ∧ Yields (compileMethods config id) m size after
      ∧ s'.object id = after.object id
  := by
  induction ids generalizing address s with
  | nil =>
    obtain ⟨_, rfl⟩ := yields_pure.mp h
    exact ⟨fun _ _ => rfl, nofun⟩
  | cons id rest ih =>
    obtain ⟨hfresh, hnodup'⟩ := List.nodup_cons.mp hnodup
    obtain ⟨size, after, hcompile, hrest⟩ := yields_bind.mp h
    obtain ⟨m, hruns, hmethods⟩ := compileObject_runsTo hcompile
    obtain ⟨hkeeps, _⟩ := compileObject_addressed (hids id List.mem_cons_self) hcompile
    have hids' : ∀ other ∈ rest, other < after.objects.length := by
      intro other hother
      rw [hkeeps.length]
      apply hids other (List.mem_cons_of_mem id hother)
    obtain ⟨hothers, hdone⟩ := ih hnodup' hids' hrest
    use fun _ => hkeeps.others_cons hothers
    intro other hother
    rcases List.mem_cons.mp hother with rfl | hmem
    · use m, size, after, hruns, hmethods
      apply hothers other hfresh
    · obtain ⟨m', size', after', hruns', hmethods', hsame⟩ := hdone other hmem
      use m', size', after'
      refine ⟨?_, hmethods', hsame⟩
      apply (hruns.trans (compileMethods_runsTo hmethods)).trans hruns'

/-- The objects of a build are as compiling their methods left them. -/
theorem build_runsTo {config : Config} {s s' : Build} {u : Unit} (hs : s.Registered)
    (h : Yields (build config) s u s') {id : ObjId} (hid : id < s.objects.length) :
  ∃ m size after, s.RunsTo m ∧ Yields (compileMethods config id) m size after
    ∧ s'.object id = after.object id
  := by
  obtain ⟨_, m, hslots, hcompile⟩ := yields_bind.mp (yields_get_bind.mp h)
  have hruns := placeSlots_runsTo hslots
  have hids : ∀ id ∈ s.order, id < m.objects.length := by
    intro id hmem
    rw [hruns.files.length]
    apply hs.mem_order.mp hmem
  obtain ⟨_, hdone⟩ := compileObjects_runsTo hs.nodup_order hids hcompile
  obtain ⟨m', size, after, hruns', hmethods, hsame⟩ := hdone id (hs.mem_order.mpr hid)
  use m', size, after, hruns.trans hruns'

/-- Compiling the methods of an object fills each of them in with a tiled frame. -/
theorem compileMethods_seated {config : Config} {id : ObjId} {size : Nat} {s s' : Build}
    (hfiles : ∀ origin, s.Agree Object.file origin → fileId? origin.objects "RESULT" = none)
    (h : Yields (compileMethods config id) s size s') {method : Method}
    (hmethod : method ∈ (s'.object id).methods) :
  ∃ origin, s.Keeps id Object.outline origin ∧ method.Seated config origin id method.offset
  := by
  have hlength := (compileMethods_runsTo h).files.length
  have hid : id < s.objects.length := by
    by_contra hout
    rw [Build.object_of_le (hlength.trans_le (Nat.le_of_not_lt hout))] at hmethod
    cases hmethod
  obtain ⟨_, _, _, hfilled⟩ := compileMethods_spec hid h
  obtain ⟨origin, hkeeps, compiled, memo, hrun, hcode, hlocals⟩ := hfilled method hmethod
  have hagree := (Build.KeepsAll.of_keeps (hkeeps.comp Object.file)).toAgree
  have hseated := Method.seated_of_compile (hfiles origin hagree) hrun
  rw [hcode, hlocals] at hseated
  use origin, hkeeps

end Step

/-- The slots of a method tile the frame that a call reserves for it. This holds of every method
that is compiled after any phases of a registered program, with the size that its compilation
returns; of all methods of an object whose methods have been compiled, with the size that is stored
in them; and so of all methods of a program that has been compiled to an image. -/
theorem Program.frames_tile {program : Program} {registered : Build}
    (h : program.register = .ok registered) (config : Config) :
  (∀ build, registered.RunsTo build → ∀ id index base compiled after,
    Yields (Step.compileMethod config id index base) build (some compiled) after →
    ∃ method, (build.object id).methods[index]? = some method
      ∧ Method.Seated { method with localsSize := compiled.localsSize, code := compiled.code }
        config build id base)
  ∧ (∀ build, registered.RunsTo build → ∀ id size after,
    Yields (Step.compileMethods config id) build size after →
    ∀ method ∈ (after.object id).methods, ∃ origin, build.Keeps id Object.outline origin
      ∧ method.Seated config origin id method.offset)
  ∧ ∀ image linked, program.compile config = .ok (image, linked) →
    ∀ id < linked.objects.length, ∀ method ∈ (linked.object id).methods, ∃ build origin,
      registered.RunsTo build ∧ build.Keeps id Object.outline origin
      ∧ method.Seated config origin id method.offset
  := by
  have hfiles {build : Build} (hagree : registered.Agree Object.file build) :
      fileId? build.objects "RESULT" = none :=
    fileId?_eq_none h hagree (by decide +kernel)
  have hmethods {build : Build} (hruns : registered.RunsTo build) {id : ObjId} {size : Nat}
      {after : Build} (hcompile : Yields (Step.compileMethods config id) build size after)
      {method : Method} (hmethod : method ∈ (after.object id).methods) :
      ∃ origin, build.Keeps id Object.outline origin
        ∧ method.Seated config origin id method.offset := by
    apply Step.compileMethods_seated _ hcompile hmethod
    intro origin hagree
    apply hfiles (hruns.files.trans hagree)
  refine ⟨?_, ?_, ?_⟩
  · intro build hruns id index base compiled after hcompile
    replace hcompile := Step.yields_object_bind.mp hcompile
    cases hmethod : (build.object id).methods[index]? with
    | none =>
      rw [hmethod] at hcompile
      cases hcompile
    | some method =>
      rw [hmethod] at hcompile
      obtain ⟨found, hevaluate, hsame⟩ := yields_map.mp hcompile
      obtain rfl := Option.some.inj hsame
      obtain ⟨memo, hrun, _⟩ := Step.yields_evaluateIn.mp hevaluate
      use method, rfl
      apply Method.seated_of_compile (hfiles hruns.files) hrun
  · intro build hruns id size after hcompile method hmethod
    apply hmethods hruns hcompile hmethod
  · intro image linked hcompile id hid method hmethod
    obtain ⟨registered', laid, hregister, hbuild, hlink, hlaid⟩ := compile_spec hcompile
    obtain rfl : registered' = registered := Except.ok.inj (hregister.symm.trans h)
    -- linking leaves the methods alone
    have hshares := Step.link_sharing hlaid config
    rw [hlink] at hshares
    have hsame : (linked.object id).methods = (laid.object id).methods :=
      (congrArg Object.methods (hshares.agree.objects id) :)
    have hspec := register_spec h
    rw [hshares.agree.length, (Step.build_filled hspec hbuild).1.length] at hid
    obtain ⟨build, size, after, hruns, hstored, hobject⟩ := Step.build_runsTo hspec hbuild hid
    rw [hsame, hobject] at hmethod
    obtain ⟨origin, hkeeps, hseated⟩ := hmethods hruns hstored hmethod
    use build, origin

/-- A method with parameters, a table and a last local, whose result has no name, and one whose
parameter is called RESULT. -/
def seatedProgram : Program :=
  let assign (target value : String) : Stmt :=
    .exp {} (.assign {} none (.name {} target) (.name {} value))
  { root := "top"
    objects := [
      { file := "top"
        constants := [{ name := { name := "Rows" }, value := .int {} 3 }]
        methods := [
          { name := { name := "start" }, isPublic := true
            params := [{ name := "x" }, { name := "y" }]
            locals := [
              { name := { name := "Table" }
                count := some (.binary {} .multiply (.name {} "rows") (.int {} 2)) },
              { name := { name := "last" } }]
            body := [assign "LAST" "Result"] },
          { name := { name := "keep" }, isPublic := false, result := some { name := "r" }
            params := [{ name := "Result" }]
            body := [assign "R" "RESULT"] }] }] }

/-- The first frame has three longs in front of a table of six and a last long behind it, the second
one the result and the parameter. -/
theorem Program.frames_tile_table :
  ∃ registered, seatedProgram.register = .ok registered
    ∧ (∃ compiled after method,
      Yields (Step.compileMethod {} 0 0 12) registered (some compiled) after
      ∧ compiled.localsSize = 28 ∧ (registered.object 0).methods[0]? = some method
      ∧ Method.Seated { method with localsSize := compiled.localsSize, code := compiled.code }
        {} registered 0 12)
    ∧ (∃ size after, Yields (Step.compileMethods {} 0) registered size after
      ∧ (after.object 0).methods.map Method.frameSize = [40, 8]
      ∧ ∀ method ∈ (after.object 0).methods, ∃ origin, registered.Keeps 0 Object.outline origin
        ∧ method.Seated {} origin 0 method.offset)
    ∧ ∃ image linked, seatedProgram.compile {} = .ok (image, linked)
      ∧ (linked.object 0).methods.map Method.frameSize = [40, 8]
      ∧ ∀ method ∈ (linked.object 0).methods, ∃ build origin,
        registered.RunsTo build ∧ build.Keeps 0 Object.outline origin
        ∧ method.Seated {} origin 0 method.offset
  := by
  obtain ⟨registered, h, ⟨found, after, hone, hfound⟩, size, after', hall, hsizes⟩ :
      ∃ registered, seatedProgram.register = .ok registered
        ∧ (∃ found after, Yields (Step.compileMethod {} 0 0 12) registered found after
          ∧ found.map CompiledMethod.localsSize = some 28)
        ∧ ∃ size after, Yields (Step.compileMethods {} 0) registered size after
          ∧ (after.object 0).methods.map Method.frameSize = [40, 8] := by
    decide +kernel
  obtain ⟨⟨image, linked⟩, hcompile, hid, hlinked⟩ :
      ∃ result, seatedProgram.compile {} = .ok result ∧ 0 < result.2.objects.length
        ∧ (result.2.object 0).methods.map Method.frameSize = [40, 8] := by
    decide +kernel
  obtain ⟨hmethod, hmethods, hprogram⟩ := frames_tile h {}
  obtain ⟨compiled, rfl, hlocals⟩ := Option.map_eq_some_iff.mp hfound
  obtain ⟨method, hat, hseated⟩ := hmethod registered (.refl _) 0 0 12 compiled after hone
  exact ⟨registered, h, ⟨compiled, after, method, hone, hlocals, hat, hseated⟩,
    ⟨size, after', hall, hsizes, hmethods registered (.refl _) 0 size after' hall⟩,
    image, linked, hcompile, hlinked, hprogram image linked hcompile 0 hid⟩

end SpinHub
