import Mathlib
import SpinHub.Dat.Section
import SpinHub.Proofs.DeclaredNames
import SpinHub.Proofs.StableEvaluation

/-!
# Placing DAT entries

An entry that has been placed once is placed alike again when symbols have been added and
constants have been evaluated in between. It is given room for its payload, and a label that was
declared is found again.
-/

namespace SpinHub

/-- Aligning does not go back. -/
theorem le_alignUp (n a : Nat) :
  n ≤ alignUp n a
  := by
  have := @Nat.and_le_right (n + (a - 1)) (a - 1)
  rw [alignUp]
  omega

namespace Step

variable {α β : Type}

/-! ### Steps that repeat -/

/-- What `x` yields without a change to the objects, `x'` yields in every build that has grown
since, and leaves it alone. -/
def Replays (x x' : Step α) : Prop :=
  ∀ s a s', Yields x s a s' → s'.objects = s.objects ∧ Memo.Grows s.memo s'.memo ∧
    ∀ t : Build, ObjectsGrow s.objects t.objects → Memo.Grows s'.memo t.memo → Yields x' t a t

theorem Replays.pure (a : α) :
  Replays (pure a) (pure a)
  := by
  intro s b s' h
  obtain ⟨rfl, rfl⟩ := yields_pure.mp h
  refine ⟨rfl, Memo.Grows.refl _, ?_⟩
  intro t _ _
  apply yields_pure.mpr ⟨rfl, rfl⟩

theorem Replays.liftM (e : Except Fault α) :
  Replays (liftM e) (liftM e)
  := by
  intro s a s' h
  obtain ⟨ha, rfl⟩ := yields_liftM.mp h
  refine ⟨rfl, Memo.Grows.refl _, ?_⟩
  intro t _ _
  apply yields_liftM.mpr ⟨ha, rfl⟩

/-- What fails yields nothing that could be repeated. -/
theorem Replays.failAt (pos : Pos) (cause : Cause) (x' : Step α) :
  Replays (failAt pos cause) x'
  := by
  intro s a s' h
  cases yields_failAt h

/-- Steps that replay do so in turn. -/
theorem Replays.bind {x x' : Step α} {f f' : α → Step β} (hx : Replays x x')
    (hf : ∀ a, Replays (f a) (f' a)) :
  Replays (x >>= f) (x' >>= f')
  := by
  intro s b s' h
  obtain ⟨a, middle, ha, hb⟩ := yields_bind.mp h
  obtain ⟨hobjects, hmemo, hagain⟩ := hx _ _ _ ha
  obtain ⟨hobjects', hmemo', hagain'⟩ := hf a _ _ _ hb
  refine ⟨hobjects'.trans hobjects, hmemo.trans hmemo', ?_⟩
  intro t hgrow hlater
  apply yields_bind.mpr
  use a, t, hagain t hgrow (hmemo'.trans hlater)
  apply hagain' t _ hlater
  rwa [hobjects]

/-- An evaluation replays if it repeats at sites that have grown. -/
theorem evaluateAt_replays (id : ObjId) (cursor : Cursor) {action : Site → Eval α}
    (h : ∀ site site', Site.Grows site site' → Repeats (action site) (action site')) :
  Replays (evaluateAt id cursor action) (evaluateAt id cursor action)
  := by
  intro s a s' hs
  obtain ⟨memo, ha, rfl⟩ := yields_evaluateIn.mp hs
  refine ⟨rfl, ?_, ?_⟩
  · apply (h _ _ (Site.Grows.refl _) _ _ _ ha).1
  · intro t hgrow hlater
    have hsite : Site.Grows { s.site id with here := some cursor.here }
        { t.site id with here := some cursor.here } := ⟨hgrow, rfl, rfl, rfl⟩
    apply yields_evaluateIn.mpr
    use t.memo, (h _ _ hsite _ _ _ ha).2 t.memo hlater

/-- An operand has the same value again, or the same default. -/
theorem operandOr_replays (id : ObjId) (cursor : Cursor) (default : Int) (operand : Option Exp) :
  Replays (operandOr id cursor default operand) (operandOr id cursor default operand)
  := by
  apply evaluateAt_replays
  intro site site' h
  apply Site.evalIntOr_repeats h

/-- A remark is made again in the writing pass, or only there. -/
theorem remark_replays (pass : Pass) (id : ObjId) (pos : Pos) (text : String) :
  Replays (remark pass id pos text) (remark .write id pos text)
  := by
  cases pass with
  | measure =>
    intro s u s' h
    rw [remark, yields_warn] at h
    subst h
    refine ⟨rfl, Memo.Grows.refl _, ?_⟩
    intro t _ _
    apply yields_pure.mpr ⟨rfl, rfl⟩
  | write => apply Replays.pure

theorem remarkAfterRes_replays (pass : Pass) (id : ObjId) (cursor : Cursor) (pos : Pos)
    (text : String) :
  Replays (remarkAfterRes pass id cursor pos text) (remarkAfterRes .write id cursor pos text)
  := by
  unfold remarkAfterRes
  split_ifs
  · apply remark_replays
  · apply Replays.pure

/-- Data is repeated as often again. -/
theorem dataCount_replays (id : ObjId) (cursor : Cursor) (data : DatData) :
  Replays (dataCount id cursor data) (dataCount id cursor data)
  := by
  apply Replays.bind (operandOr_replays _ _ _ _)
  intro count
  split_ifs
  · apply Replays.failAt
  · apply Replays.pure

/-- An entry that has been placed in a pass is placed alike by the writing pass. -/
theorem place_replays {pass : Pass} (config : Config) (id : ObjId) (cursor : Cursor)
    (entry : DatEntry) :
  Replays (place config pass id cursor entry) (place config .write id cursor entry)
  := by
  -- most entries move the cursor in the end
  have moves {e : Except Fault Cursor} {f : Cursor → Placed} :
      Replays (do return f (← liftM e) : Step Placed) (do return f (← liftM e)) :=
    Replays.bind (Replays.liftM e) fun _ => Replays.pure _
  cases entry with
  | label name alignment => apply Replays.pure
  | org pos origin =>
    apply Replays.bind (operandOr_replays _ _ _ _)
    intro origin
    apply moves
  | orgx pos => apply Replays.pure
  | instruction instruction =>
    rw [place, place]
    apply Replays.bind (remarkAfterRes_replays _ _ _ _ _)
    intro _
    dsimp only
    split
    · apply Replays.bind (remark_replays _ _ _ _)
      intro _
      apply moves
    · apply moves
  | res pos count =>
    apply Replays.bind (operandOr_replays _ _ _ _)
    intro count
    apply moves
  | fit pos limit =>
    rw [place, place]
    split_ifs
    · apply Replays.pure
    · apply Replays.bind (operandOr_replays _ _ _ _)
      intro limit
      dsimp only
      split_ifs
      · apply Replays.failAt
      · apply Replays.pure
  | file pos bytes =>
    apply Replays.bind (remarkAfterRes_replays _ _ _ _ _)
    intro _
    apply moves
  | data data =>
    rw [place, place]
    dsimp only
    split_ifs
    · apply Replays.failAt
    · apply Replays.bind (remarkAfterRes_replays _ _ _ _ _)
      intro _
      apply Replays.bind (dataCount_replays _ _ _)
      intro count
      apply moves
    · apply Replays.failAt

end Step

/-! ### Room for payloads -/

namespace Cursor

/-- A cog address does not move the offset. -/
theorem offset_setCog {cursor next : Cursor} {pos : Pos} {cog : Int}
    (h : cursor.setCog pos cog = .ok next) :
  next.offset = cursor.offset
  := by
  rw [setCog] at h
  split_ifs at h
  cases h
  rfl

/-- Advancing moves the offset by as many bytes. -/
theorem offset_advance {cursor next : Cursor} {pos : Pos} {bytes limit : Nat}
    (h : cursor.advance pos bytes limit = .ok next) :
  next.offset = cursor.offset + bytes
  := by
  rw [advance] at h
  split_ifs at h
  cases h
  rfl

end Cursor

/-- Whether an entry takes a number of bytes: an instruction takes four, and data any number of
repetitions of its size. -/
def DatEntry.Takes : DatEntry → Nat → Prop
  | .instruction _, length => length = 4
  | .file _ bytes, length => length = bytes.length
  | .data item, length =>
    item.size ∈ ([1, 2, 4] : List UInt8) ∧ ∃ count, length = item.size.toNat * count
  | _, length => length = 0

namespace Step

/-- How an entry is placed: where its payload starts, which operand it evaluates on the way from
`s` to `s'`, and how it moves the cursor. -/
inductive Places (config : Config) (id : ObjId) (cursor : Cursor) (s s' : Build) :
    DatEntry → Placed → Prop where
  | label (name : Ident) (alignment : UInt8) {start : Cursor}
      (hstart : start = if alignment = 0 then cursor
        else { cursor.align alignment.toNat with alignment := alignment.toNat }) :
    Places config id cursor s s' (.label name alignment) { start, next := start }
  | org {pos : Pos} {operand : Option Exp} {origin : Int} {next : Cursor}
      (horigin : Yields (operandOr id (cursor.align 4) 0 operand) s origin s')
      (hnext : (cursor.align 4).setCog pos (origin * 4) = .ok next) :
    Places config id cursor s s' (.org pos operand)
      { start := cursor.align 4
        next := { next with orgx := false, alignment := 4, afterRes := false } }
  | orgx (pos : Pos) :
    Places config id cursor s s' (.orgx pos)
      { start := cursor, next := { cursor with orgx := true, afterRes := false } }
  | instruction {item : Instruction} {next : Cursor}
      (hnext : cursor.alignLong.advance item.pos 4 config.datLimit = .ok next) :
    Places config id cursor s s' (.instruction item) { start := cursor.alignLong, next }
  | res {pos : Pos} {operand : Option Exp} {longs : Int} {next : Cursor}
      (hlongs : Yields (operandOr id cursor.alignLong 1 operand) s longs s')
      (hnext : cursor.alignLong.setCog pos
        (cursor.alignLong.offset + cursor.alignLong.shift + longs * 4) = .ok next) :
    Places config id cursor s s' (.res pos operand)
      { start := cursor.alignLong, next := { next with afterRes := true } }
  | fit (pos : Pos) (limit : Option Exp) :
    Places config id cursor s s' (.fit pos limit) { start := cursor, next := cursor }
  | file {pos : Pos} {bytes : Bytes} {next : Cursor}
      (hnext : Cursor.advance { cursor with alignment := 1 } pos bytes.length config.datLimit
        = .ok next) :
    Places config id cursor s s' (.file pos bytes) { start := { cursor with alignment := 1 }, next }
  | data {item : DatData} {count : Nat} {next : Cursor} {m : Build}
      (hsize : item.size ∈ ([1, 2, 4] : List UInt8)) (hobjects : m.objects = s.objects)
      (hcount : Yields (dataCount id (cursor.align item.alignment.toNat) item) m count s')
      (hnext : (cursor.align item.alignment.toNat).advance item.pos (item.size.toNat * count)
        config.datLimit = .ok next) :
    Places config id cursor s s' (.data item)
      { start := cursor.align item.alignment.toNat
        next := { next with alignment := item.alignment.toNat } }

/-- Whatever a pass places, it places in one of these ways. -/
theorem places_of_place {config : Config} {pass : Pass} {id : ObjId} {cursor : Cursor}
    {entry : DatEntry} {s s' : Build} {placed : Placed}
    (h : Yields (place config pass id cursor entry) s placed s') :
  Places config id cursor s s' entry placed
  := by
  -- most entries move the cursor in the end
  have moves {e : Except Fault Cursor} {f : Cursor → Placed} {m : Build}
      (h : Yields (do return f (← liftM e) : Step Placed) m placed s') :
      m = s' ∧ ∃ next, e = .ok next ∧ placed = f next := by
    obtain ⟨next, _, hlift, hpure⟩ := yields_bind.mp h
    obtain ⟨hnext, rfl⟩ := yields_liftM.mp hlift
    obtain ⟨hplaced, rfl⟩ := yields_pure.mp hpure
    exact ⟨rfl, next, hnext, hplaced⟩
  cases entry with
  | label name alignment =>
    obtain ⟨rfl, rfl⟩ := yields_pure.mp h
    exact .label name alignment rfl
  | org pos operand =>
    obtain ⟨origin, m, horigin, h⟩ := yields_bind.mp h
    obtain ⟨rfl, next, hnext, rfl⟩ := moves h
    exact .org horigin hnext
  | orgx pos =>
    obtain ⟨rfl, rfl⟩ := yields_pure.mp h
    exact .orgx pos
  | instruction item =>
    rw [place] at h
    obtain ⟨_, _, _, h⟩ := yields_bind.mp h
    have hplaced : ∃ next, cursor.alignLong.advance item.pos 4 config.datLimit = .ok next
        ∧ placed = { start := cursor.alignLong, next } := by
      dsimp only at h
      split at h
      · obtain ⟨_, _, _, h⟩ := yields_bind.mp h
        apply (moves h).2
      · apply (moves h).2
    obtain ⟨next, hnext, rfl⟩ := hplaced
    exact .instruction hnext
  | res pos operand =>
    obtain ⟨longs, m, hlongs, h⟩ := yields_bind.mp h
    obtain ⟨rfl, next, hnext, rfl⟩ := moves h
    exact .res hlongs hnext
  | fit pos limit =>
    rw [place] at h
    split_ifs at h
    · obtain ⟨rfl, rfl⟩ := yields_pure.mp h
      exact .fit pos limit
    · obtain ⟨longs, _, _, h⟩ := yields_bind.mp h
      dsimp only at h
      split_ifs at h
      · cases yields_failAt h
      · obtain ⟨rfl, rfl⟩ := yields_pure.mp h
        exact .fit pos limit
  | file pos bytes =>
    obtain ⟨_, _, _, h⟩ := yields_bind.mp h
    obtain ⟨_, next, hnext, rfl⟩ := moves h
    exact .file hnext
  | data item =>
    rw [place] at h
    dsimp only at h
    split_ifs at h with hsize
    · cases yields_failAt h
    · obtain ⟨_, m, hremark, h⟩ := yields_bind.mp h
      obtain ⟨count, _, hcount, h⟩ := yields_bind.mp h
      obtain ⟨rfl, next, hnext, rfl⟩ := moves h
      exact .data hsize (remarkAfterRes_replays _ _ _ _ _ _ _ _ hremark).1 hcount hnext
    · cases yields_failAt h

/-- A payload stands behind all that was placed before, and the next entry behind the payload. -/
theorem place_room {config : Config} {pass : Pass} {id : ObjId} {cursor : Cursor}
    {entry : DatEntry} {s s' : Build} {placed : Placed}
    (h : Yields (place config pass id cursor entry) s placed s') :
  cursor.offset ≤ placed.start.offset
    ∧ ∃ length, entry.Takes length ∧ placed.next.offset = placed.start.offset + length
  := by
  cases places_of_place h with
  | label name alignment hstart =>
    refine ⟨?_, 0, rfl, rfl⟩
    subst hstart
    dsimp only
    split_ifs
    · apply le_rfl
    · apply le_alignUp
  | org _ hnext => exact ⟨le_alignUp _ _, 0, rfl, (Cursor.offset_setCog hnext :)⟩
  | orgx _ => exact ⟨le_rfl, 0, rfl, rfl⟩
  | instruction hnext => exact ⟨le_alignUp _ _, 4, rfl, Cursor.offset_advance hnext⟩
  | res _ hnext => exact ⟨le_alignUp _ _, 0, rfl, (Cursor.offset_setCog hnext :)⟩
  | fit _ _ => exact ⟨le_rfl, 0, rfl, rfl⟩
  | file hnext => exact ⟨le_rfl, _, rfl, Cursor.offset_advance hnext⟩
  | data hsize _ _ hnext =>
    exact ⟨le_alignUp _ _, _, ⟨hsize, _, rfl⟩, (Cursor.offset_advance hnext :)⟩

theorem dataSize_pos {item : DatData} (hsize : item.size ∈ ([1, 2, 4] : List UInt8)) :
  0 < item.size.toNat
  := by
  simp only [List.mem_cons, List.not_mem_nil, or_false] at hsize
  rcases hsize with h | h | h <;> rw [h] <;> decide

/-- One repetition of data takes as many bytes as its size says. -/
theorem length_dataUnit {item : DatData} (hsize : item.size ∈ ([1, 2, 4] : List UInt8))
    (value : Value) :
  (item.unit value).length = item.size.toNat
  := by
  have hle : item.size.toNat ≤ 4 := by
    simp only [List.mem_cons, List.not_mem_nil, or_false] at hsize
    rcases hsize with h | h | h <;> rw [h] <;> decide
  rw [DatData.unit, List.length_take]
  apply min_eq_left hle

/-- The data of an entry: its value, repeated as often as there is room, and perhaps a remark. -/
theorem yields_dataBytes {id : ObjId} {placed : Placed} {item : DatData} {t t' : Build}
    {bytes : Bytes} (h : Yields (dataBytes id placed item) t bytes t') :
  ∃ value m, Yields (evaluateAt id placed.start fun site => site.eval item.value) t value m
    ∧ bytes = (List.replicate (placed.length / item.size.toNat) (item.unit value)).flatten
    ∧ t'.objects = m.objects ∧ t'.memo = m.memo
  := by
  obtain ⟨value, m, hvalue, h⟩ := yields_bind.mp h
  use value, m, hvalue
  split_ifs at h
  · cases yields_failAt h
  · obtain ⟨_, _, hwarn, h⟩ := yields_bind.mp h
    obtain rfl := yields_warn.mp hwarn
    obtain ⟨rfl, rfl⟩ := yields_pure.mp h
    exact ⟨rfl, rfl, rfl⟩
  · obtain ⟨rfl, rfl⟩ := yields_pure.mp h
    exact ⟨rfl, rfl, rfl⟩

/-- A payload fills the room of its entry. -/
theorem payload_length {id : ObjId} {placed : Placed} {entry : DatEntry} {length : Nat}
    {t t' : Build} {bytes : Bytes} (hroom : entry.Takes length)
    (hnext : placed.next.offset = placed.start.offset + length)
    (h : Yields (payload id placed entry) t bytes t') :
  bytes.length = length
  := by
  cases entry with
  | label name alignment =>
    obtain ⟨_, _, _, h⟩ := yields_bind.mp h
    obtain ⟨rfl, rfl⟩ := yields_pure.mp h
    exact hroom.symm
  | instruction instruction =>
    obtain ⟨word, _, _, h⟩ := yields_bind.mp h
    obtain ⟨rfl, rfl⟩ := yields_pure.mp h
    exact hroom.symm
  | data item =>
    obtain ⟨hsize, count, rfl⟩ := hroom
    obtain ⟨value, m, _, rfl, _⟩ := yields_dataBytes h
    have hcount : placed.length / item.size.toNat = count := by
      rw [Placed.length, hnext, Nat.add_sub_cancel_left,
        Nat.mul_div_cancel_left _ (dataSize_pos hsize)]
    rw [List.length_flatten, List.map_replicate, List.sum_replicate_nat, length_dataUnit hsize,
      hcount, Nat.mul_comm]
  | file pos content =>
    obtain ⟨rfl, rfl⟩ := yields_pure.mp h
    exact hroom.symm
  | org pos origin =>
    obtain ⟨rfl, rfl⟩ := yields_pure.mp h
    exact hroom.symm
  | orgx pos =>
    obtain ⟨rfl, rfl⟩ := yields_pure.mp h
    exact hroom.symm
  | res pos count =>
    obtain ⟨rfl, rfl⟩ := yields_pure.mp h
    exact hroom.symm
  | fit pos limit =>
    obtain ⟨rfl, rfl⟩ := yields_pure.mp h
    exact hroom.symm

/-! ### Labels -/

end Step

/-- The object behind an entry: a label becomes the latest one. -/
def Object.behind (object : Object) : DatEntry → Object
  | .label name _ => object.passLabel name.name
  | _ => object

theorem Object.grows_latest (object : Object) (latest : String) :
  object.Grows { object with latestLabel := latest }
  := ⟨List.prefix_rfl, rfl, List.prefix_rfl, rfl, rfl, rfl, rfl⟩

/-- Passing a label takes nothing away. -/
theorem Object.grows_passLabel (object : Object) (name : String) :
  object.Grows (object.passLabel name)
  := by
  unfold Object.passLabel
  split_ifs
  · apply Object.Grows.refl
  · apply Object.grows_latest

/-- Adding a label under a free key adds a name and the label, and nothing else. -/
theorem Object.declare_label_eq {object object' : Object} {key : String} {label : Label}
    (h : object.declare (.label key label) = .ok object') :
  object.find? key = none
    ∧ object' = { object with
        names := object.names ++ [(key, .label object.labels.length)]
        labels := object.labels ++ [label] }
  := by
  rw [Declare.label, declare_symbol] at h
  cases hfree : object.find? key with
  | some ref =>
    rw [hfree] at h
    cases h
  | none =>
    rw [hfree] at h
    cases h
    exact ⟨rfl, rfl⟩

/-- A label that has been added stands under its key. -/
theorem Object.declare_label_spec {object object' : Object} {key : String} {label : Label}
    (h : object.declare (.label key label) = .ok object') :
  object.Grows object' ∧ object'.latestLabel = object.latestLabel
    ∧ object'.find? key = some (.label object.labels.length)
    ∧ object'.labels[object.labels.length]? = some label
  := by
  obtain ⟨hfree, rfl⟩ := declare_label_eq h
  refine ⟨⟨List.prefix_append .., rfl, List.prefix_append .., rfl, rfl, rfl, rfl⟩, rfl, ?_, ?_⟩
  · rw [find?] at hfree
    rw [find?, List.lookup_append, hfree, Option.none_or, List.lookup_cons_self]
  · apply List.getElem?_concat_length

/-- The label that an object has under a key. -/
def Object.labelUnder? (object : Object) (key : String) : Option Label :=
  match object.find? key with
  | some (.label index) => object.labels[index]?
  | _ => none

theorem Object.labelOf?_eq (object : Object) (name : String) :
  object.labelOf? name = object.labelUnder? (object.key name)
  := rfl

/-- A declared label stands under its key. -/
theorem Object.labelUnder_declare {object object' : Object} {key : String} {label : Label}
    (h : object.declare (.label key label) = .ok object') :
  object'.labelUnder? key = some label
  := by
  obtain ⟨_, _, hfind, hlabel⟩ := declare_label_spec h
  rw [labelUnder?, hfind]
  exact hlabel

/-- A label stays under its key as the object grows. -/
theorem Object.Grows.labelUnder {object object' : Object} (h : object.Grows object') {key : String}
    {label : Label} (hlabel : object.labelUnder? key = some label) :
  object'.labelUnder? key = some label
  := by
  rw [labelUnder?] at hlabel
  split at hlabel
  case h_1 index hfind =>
    rw [labelUnder?, Object.find?, lookup_of_prefix h.names hfind]
    apply getElem?_of_prefix h.labels hlabel
  case h_2 => cases hlabel

namespace Build

/-- Symbols may have been added to objects and constants may have been evaluated. The latest label
has changed in object `id` at most. -/
structure GrowsAt (id : ObjId) (s s' : Build) : Prop where
  objects : ∀ other, (s.object other).Grows (s'.object other)
  latest : ∀ other, other ≠ id → (s'.object other).latestLabel = (s.object other).latestLabel
  memo : Memo.Grows s.memo s'.memo
  length : s'.objects.length = s.objects.length

namespace GrowsAt

variable {id : ObjId}

theorem refl (s : Build) :
  GrowsAt id s s
  := ⟨fun _ => Object.Grows.refl _, fun _ _ => rfl, Memo.Grows.refl _, rfl⟩

theorem trans {a b c : Build} (hab : GrowsAt id a b) (hbc : GrowsAt id b c) :
  GrowsAt id a c
  where
  objects other := (hab.objects other).trans (hbc.objects other)
  latest other h := (hbc.latest other h).trans (hab.latest other h)
  memo := hab.memo.trans hbc.memo
  length := hbc.length.trans hab.length

/-- Builds with the same objects have grown if their memos have. -/
theorem of_objects {s s' : Build} (hobjects : s'.objects = s.objects)
    (hmemo : Memo.Grows s.memo s'.memo) :
  GrowsAt id s s'
  := by
  have hobject (other : ObjId) : s'.object other = s.object other := by
    rw [Build.object, hobjects, Build.object]
  constructor
  · intro other
    rw [hobject]
    apply Object.Grows.refl
  · intro other _
    rw [hobject]
  · exact hmemo
  · rw [hobjects]

/-- A build has grown if one of its objects has. -/
theorem modifyObject (s : Build) (f : Object → Object)
    (h : (s.object id).Grows (f (s.object id))) :
  GrowsAt id s (s.modifyObject id f)
  := by
  refine ⟨?_, ?_, Memo.Grows.refl _, s.length_modifyObject id f⟩
  · intro other
    obtain hsame | ⟨rfl, hchanged⟩ := s.object_modifyObject_cases id f other
    · rw [hsame]
      apply Object.Grows.refl
    · rwa [hchanged]
  · intro other hother
    rw [object_modifyObject_ne f hother.symm]

end GrowsAt

end Build

namespace Step

/-- A label that is refused leaves the build as it was. -/
theorem run_declare_label (id : ObjId) (key : String) (label : Label) (s : Build) :
  (declare id (.label key label)).run.run s
    = match (s.object id).declare (.label key label) with
      | .error fault => (.error fault, s)
      | .ok object => (.ok (), s.modifyObject id fun _ => object)
  := by
  rw [declare, ExceptT.run_mk, StateT.run, Declare.label, Declare.run_symbol,
    Object.declare_symbol]
  cases (s.object id).find? key with
  | some found => exact congrArg (Prod.mk _) (s.modifyObject_object id)
  | none => rfl

/-- A declared label becomes the latest one, unless it is local; one that is refused leaves the
build as it was. -/
theorem run_declareLabel (id : ObjId) (start : Cursor) (name : Ident) (s : Build) :
  (declareLabel id start name).run.run s
    = match (s.object id).declare (.label ((s.object id).key name.name) (start.label name)) with
      | .error fault => (.error fault, s)
      | .ok object => (.ok (), s.modifyObject id fun _ => object.passLabel name.name)
  := by
  rw [declareLabel, run_object_bind, run_bind, run_declare_label]
  cases (s.object id).declare (.label ((s.object id).key name.name) (start.label name)) with
  | error fault => rfl
  | ok object => exact congrArg (Prod.mk _) (s.modifyObject_modifyObject id ..)

/-- A label that is declared is all that changes in the build. -/
theorem yields_declareLabel {id : ObjId} {start : Cursor} {name : Ident} {s s' : Build} {u : Unit}
    (h : Yields (declareLabel id start name) s u s') :
  ∃ object, (s.object id).declare (.label ((s.object id).key name.name) (start.label name))
      = .ok object
    ∧ s' = s.modifyObject id fun _ => object.passLabel name.name
  := by
  rw [Yields, run_declareLabel] at h
  revert h
  cases (s.object id).declare (.label ((s.object id).key name.name) (start.label name)) with
  | error fault =>
    intro h
    cases h
  | ok object =>
    intro h
    cases h
    exact ⟨object, rfl, rfl⟩

/-- Declaring a label adds it to the object. -/
theorem declareLabel_growsAt {id : ObjId} {start : Cursor} {name : Ident} {s s' : Build} {u : Unit}
    (h : Yields (declareLabel id start name) s u s') :
  s.GrowsAt id s'
  := by
  obtain ⟨object, hadd, rfl⟩ := yields_declareLabel h
  apply Build.GrowsAt.modifyObject
  apply (Object.declare_label_spec hadd).1.trans (Object.grows_passLabel _ _)

/-- A declared label stands where it was declared when it is checked. -/
theorem checkLabel_of_declareLabel {id : ObjId} {start : Cursor} {name : Ident} {s s' t : Build}
    {u : Unit} (hid : id < s.objects.length) (h : Yields (declareLabel id start name) s u s')
    (hgrows : (s'.object id).Grows (t.object id))
    (hlatest : (t.object id).latestLabel = (s.object id).latestLabel) :
  Yields (checkLabel id start name) t () (t.modifyObject id (·.passLabel name.name))
    ∧ (s'.object id).latestLabel = ((s.object id).passLabel name.name).latestLabel
  := by
  obtain ⟨object, hadd, rfl⟩ := yields_declareLabel h
  obtain ⟨_, hkeep, _⟩ := Object.declare_label_spec hadd
  rw [Build.object_modifyObject_self _ hid] at hgrows ⊢
  have hpass := (Object.grows_passLabel object name.name).trans hgrows
  constructor
  · have hkey : (t.object id).key name.name = (s.object id).key name.name := by
      rw [Object.key, Object.key, hlatest]
    have hknown : (t.object id).labelOf? name.name = some (start.label name) := by
      rw [Object.labelOf?_eq, hkey]
      apply hpass.labelUnder (Object.labelUnder_declare hadd)
    apply yields_object_bind.mpr
    rw [hknown]
    simp [Cursor.label]
  · unfold Object.passLabel
    split_ifs
    · exact hkeep
    · rfl

end Step

end SpinHub
