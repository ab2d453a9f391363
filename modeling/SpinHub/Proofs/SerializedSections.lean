import Mathlib
import SpinHub.Proofs.DatPayloads
import SpinHub.Proofs.ObjectLayout

/-!
# Serialized DAT sections

The two passes move a cursor over the entries, and the second writes payloads at absolute places
into a block of zeros. `Build.serialize` reads the same section off the finished build without
passes and without a block: entry after entry, the zeros up to the alignment of the entry and then
its content, with all expressions evaluated against the labels and constants of the finished build.
The section that the passes leave is this concatenation.
-/

namespace SpinHub

/-- A power of two rounds up to its next multiple. -/
theorem alignUp_isLeast (n exponent : Nat) :
  IsLeast {m | n ≤ m ∧ 2 ^ exponent ∣ m} (alignUp n (2 ^ exponent))
  := by
  have hpos : 0 < 2 ^ exponent := Nat.two_pow_pos exponent
  have hmultiple : alignUp n (2 ^ exponent)
      = (n + (2 ^ exponent - 1)) / 2 ^ exponent * 2 ^ exponent := by
    rw [alignUp, Nat.and_two_pow_sub_one_eq_mod, ← Nat.div_mul_self_eq_mod_sub_self]
  constructor
  · exact ⟨le_alignUp n _, hmultiple ▸ Nat.dvd_mul_left ..⟩
  · rintro m ⟨hle, quotient, rfl⟩
    rw [hmultiple, Nat.mul_comm]
    apply Nat.mul_le_mul_left
    have hlast : n + (2 ^ exponent - 1) < (quotient + 1) * 2 ^ exponent := by
      rw [Nat.add_mul, Nat.mul_comm quotient]
      omega
    exact Nat.lt_succ_iff.mp ((Nat.div_lt_iff_lt_mul hpos).mpr hlast)

@[simp] theorem alignUp_zero (n : Nat) :
  alignUp n 0 = n
  := by
  simp [alignUp]

@[simp] theorem alignUp_one (n : Nat) :
  alignUp n 1 = n
  := by
  simp [alignUp]

/-! ### Sections by the finished build -/

/-- Where a walk over entries stands. -/
structure Walk where
  /-- The label that local labels belong to. -/
  latest : String := ""
  /-- Bytes from the start of the object. -/
  offset : Nat
  /-- The cog address in bytes, less the offset; there is none behind ORGX. -/
  origin : Option Int

namespace Walk

/-- In front of the first entry. -/
def start (headerSize : Nat) : Walk := { offset := headerSize, origin := some (-headerSize) }

/-- The cog address in longs, rounded toward zero. -/
def here (walk : Walk) : Int := ((walk.origin.map ((walk.offset : Int) + ·)).getD 0).tdiv 4

/-- At the next offset of an alignment. -/
def align (walk : Walk) (alignment : Nat) : Walk :=
  { walk with offset := alignUp walk.offset alignment }

theorem align_one (walk : Walk) :
  walk.align 1 = walk
  := by
  rw [align, alignUp_one]

end Walk

namespace DatEntry

/-- What the offset of an entry is aligned to; 0 and 1 ask for nothing. -/
def alignment : DatEntry → Nat
  | .label _ alignment => alignment.toNat
  | .org _ _ | .instruction _ | .res _ _ => 4
  | .data item => item.alignment.toNat
  | .orgx _ | .fit _ _ | .file _ _ => 1

/-- The bytes of an entry: the long of an instruction, the low bytes of a value as often as it is
repeated, the bytes of a file, and nothing for the other entries. -/
def content (site : Site) : DatEntry → Eval Bytes
  | .instruction item => do
    let word ← item.assemble site
    return Word.littleEndian word
  | .data item => do
    let count ← site.evalIntOr 1 item.count
    let value ← site.eval item.value
    return (List.replicate count.toNat (value.bits.littleEndian.take item.size.toNat)).flatten
  | .file _ bytes => return bytes
  | .label _ _ | .org _ _ | .orgx _ | .res _ _ | .fit _ _ => return []

/-- The cog address less the offset behind an entry that stands at `start`. -/
def origin (site : Site) (start : Walk) : DatEntry → Eval (Option Int)
  | .org _ origin => do
    let longs ← site.evalIntOr 0 origin
    return some (4 * longs - start.offset)
  | .orgx _ => return none
  | .res _ count => do
    let longs ← site.evalIntOr 1 count
    return start.origin.map (· + 4 * longs)
  | .label _ _ | .instruction _ | .fit _ _ | .file _ _ | .data _ => return start.origin

/-- The label that local labels belong to behind an entry. -/
def latest (latest : String) : DatEntry → String
  | .label name _ => if isLocalLabel name.name then latest else name.name
  | _ => latest

end DatEntry

namespace Build

/-- Where expressions of object `id` are evaluated on a walk. -/
def siteOn (build : Build) (id : ObjId) (walk : Walk) : Site :=
  { (build.modifyObject id fun object => { object with latestLabel := walk.latest }).site id with
    here := some walk.here }

/-- What an evaluation yields with the constants of a build. -/
def evaluated? {α : Type} (build : Build) (action : Eval α) : Option α :=
  match (action.run.run build.memo).1 with
  | .ok a => some a
  | .error _ => none

/-- The bytes of entries from a place on, and where the walk stands behind them. -/
def serialize (build : Build) (id : ObjId) : Walk → List DatEntry → Option (Walk × Bytes)
  | walk, [] => some (walk, [])
  | walk, entry :: rest => do
    let start := walk.align entry.alignment
    let content ← build.evaluated? (entry.content (build.siteOn id start))
    let origin ← build.evaluated? (entry.origin (build.siteOn id start) start)
    let next : Walk :=
      { latest := entry.latest walk.latest, offset := start.offset + content.length, origin }
    let (last, more) ← build.serialize id next rest
    return (last, List.replicate (start.offset - walk.offset) 0 ++ content ++ more)

theorem evaluated?_of_yields {α : Type} {build : Build} {action : Eval α} {a : α} {memo : Memo}
    (h : Yields action build.memo a memo) :
  build.evaluated? action = some a
  := by
  rw [evaluated?, h]

theorem serialize_cons {build : Build} {id : ObjId} {walk : Walk} {entry : DatEntry}
    {content : Bytes} {origin : Option Int} {start : Walk}
    (hstart : walk.align entry.alignment = start)
    (hcontent : build.evaluated? (entry.content (build.siteOn id start)) = some content)
    (horigin : build.evaluated? (entry.origin (build.siteOn id start) start) = some origin)
    (rest : List DatEntry) :
  build.serialize id walk (entry :: rest)
    = (build.serialize id
        ⟨entry.latest walk.latest, start.offset + content.length, origin⟩ rest).map
      fun (last, more) =>
        (last, List.replicate (start.offset - walk.offset) 0 ++ content ++ more)
  := by
  subst hstart
  rw [serialize, hcontent, horigin, Option.map_eq_bind]
  rfl

theorem serialize_append (build : Build) (id : ObjId) (walk : Walk) (front back : List DatEntry) :
  build.serialize id walk (front ++ back)
    = (build.serialize id walk front).bind fun (middle, bytes) =>
      (build.serialize id middle back).map fun (last, more) => (last, bytes ++ more)
  := by
  induction front generalizing walk with
  | nil => simp [serialize]
  | cons entry front ih =>
    simp only [List.cons_append, serialize, ih, Option.bind_eq_bind, Option.bind_assoc,
      Option.map_eq_bind, Function.comp_def, Option.bind_some, Option.pure_def, List.append_assoc]

/-- The walk over all entries goes on where the walk over the first of them ends. -/
theorem serialize_cut {build : Build} {id : ObjId} {walk middle last : Walk}
    {front back : List DatEntry} {first bytes : Bytes}
    (hfront : build.serialize id walk front = some (middle, first))
    (h : build.serialize id walk (front ++ back) = some (last, bytes)) :
  ∃ more, build.serialize id middle back = some (last, more) ∧ bytes = first ++ more
  := by
  rw [serialize_append, hfront] at h
  obtain ⟨⟨_, more⟩, hmore, heq⟩ := Option.map_eq_some_iff.mp h
  obtain ⟨rfl, rfl⟩ := Prod.mk.inj heq
  exact ⟨more, hmore, rfl⟩

/-- The bytes of more entries begin with those of fewer. -/
theorem serialize_take_prefix {build : Build} {id : ObjId} {walk middle last : Walk}
    {entries : List DatEntry} {first bytes : Bytes} {j k : Nat} (hle : j ≤ k)
    (hfirst : build.serialize id walk (entries.take j) = some (middle, first))
    (h : build.serialize id walk (entries.take k) = some (last, bytes)) :
  first <+: bytes
  := by
  have hcut := List.take_append_drop j (entries.take k)
  rw [List.take_take, min_eq_left hle] at hcut
  rw [← hcut] at h
  obtain ⟨more, _, rfl⟩ := serialize_cut hfirst h
  apply List.prefix_append

end Build

/-! ### One entry -/

namespace Cursor

def origin (cursor : Cursor) : Option Int := if cursor.orgx then none else some cursor.shift

/-- A cursor of the passes as a place on a walk. -/
def walk (cursor : Cursor) (latest : String) : Walk :=
  { latest, offset := cursor.offset, origin := cursor.origin }

theorem here_walk (cursor : Cursor) (latest : String) :
  (cursor.walk latest).here = cursor.here
  := by
  rw [Walk.here, walk, origin, here, cog]
  split_ifs <;> rfl

theorem origin_advance {cursor next : Cursor} {pos : Pos} {bytes limit : Nat}
    (h : cursor.advance pos bytes limit = .ok next) :
  next.origin = cursor.origin
  := by
  rw [advance] at h
  split_ifs at h
  cases h
  rfl

theorem setCog_eq {cursor next : Cursor} {pos : Pos} {cog : Int}
    (h : cursor.setCog pos cog = .ok next) :
  next = { cursor with shift := cog - cursor.offset }
  := by
  rw [setCog] at h
  split_ifs at h
  cases h
  rfl

end Cursor

/-- What is evaluated at some time of the walk can be evaluated in the build at the end, where the
latest label is put back. -/
theorem Build.GrowsAt.objectsGrow {id : ObjId} {s after : Build} (h : s.GrowsAt id after)
    (hid : id < s.objects.length) :
  ObjectsGrow s.objects (after.modifyObject id fun object =>
    { object with latestLabel := (s.object id).latestLabel }).objects
  := by
  have hafter : id < after.objects.length := by
    rwa [h.length]
  constructor
  · intro other
    apply (h.objects other).trans
    by_cases hother : id = other
    · subst hother
      rw [Build.modifyObject, objectAt_modify_self _ hafter]
      apply Object.grows_latest
    · rw [Build.modifyObject, objectAt_modify_ne _ hother]
      apply Object.Grows.refl
  · intro other
    by_cases hother : id = other
    · subst hother
      rw [Build.modifyObject, objectAt_modify_self _ hafter]
      rfl
    · rw [Build.modifyObject, objectAt_modify_ne _ hother]
      apply h.latest other (Ne.symm hother)

namespace Step

/-- What is evaluated at a cursor is evaluated to the same in the finished build. -/
theorem evaluateAt_finished {α : Type} {id : ObjId} {cursor : Cursor} {action : Site → Eval α}
    (hrepeats : ∀ site site', Site.Grows site site' → Repeats (action site) (action site'))
    {s s' after : Build} {a : α} (h : Yields (evaluateAt id cursor action) s a s')
    (hgrows : s'.GrowsAt id after) (hid : id < s.objects.length) :
  Yields (action (after.siteOn id (cursor.walk (s.object id).latestLabel))) after.memo a after.memo
  := by
  obtain ⟨memo, hyields, rfl⟩ := yields_evaluateIn.mp h
  have hsite : Site.Grows { s.site id with here := some cursor.here }
      (after.siteOn id (cursor.walk (s.object id).latestLabel)) := by
    refine ⟨hgrows.objectsGrow hid, rfl, rfl, ?_⟩
    rw [Build.siteOn, Cursor.here_walk]
  apply (hrepeats _ _ hsite _ _ _ hyields).2
  exact hgrows.memo

theorem operandOr_finished {id : ObjId} {cursor : Cursor} {default n : Int} {operand : Option Exp}
    {s s' after : Build} (h : Yields (operandOr id cursor default operand) s n s')
    (hgrows : s'.GrowsAt id after) (hid : id < s.objects.length) :
  Yields ((after.siteOn id (cursor.walk (s.object id).latestLabel)).evalIntOr default operand)
    after.memo n after.memo
  := by
  apply evaluateAt_finished _ h hgrows hid
  intro site site' hsite
  apply Site.evalIntOr_repeats hsite

/-- Placing an entry only evaluates constants. -/
theorem place_growsAt {config : Config} {pass : Pass} {id : ObjId} {cursor : Cursor}
    {entry : DatEntry} {placed : Placed} {s s' : Build}
    (h : Yields (place config pass id cursor entry) s placed s') :
  s.GrowsAt id s'
  := by
  obtain ⟨hobjects, hmemo, _⟩ := place_replays _ _ _ _ _ _ _ h
  apply Build.GrowsAt.of_objects hobjects hmemo

/-- A payload changes the latest label at most. -/
theorem payload_growsAt {id : ObjId} {placed : Placed} {entry : DatEntry} {bytes : Bytes}
    {s s' : Build} (h : Yields (payload id placed entry) s bytes s') :
  s.GrowsAt id s'
  := by
  obtain ⟨hobjects, hmemo⟩ := payload_frame h
  have hbehind : (s.object id).Grows ((s.object id).behind entry) := by
    cases entry with
    | label name alignment => apply Object.grows_passLabel
    | _ => apply Object.Grows.refl
  have hlatest : s.GrowsAt id (s.modifyObject id (·.behind entry)) :=
    Build.GrowsAt.modifyObject s (·.behind entry) hbehind
  apply hlatest.trans
  apply Build.GrowsAt.of_objects
  · exact hobjects
  · exact hmemo

/-- Where an entry is placed: at its alignment, with the cog address that goes with it. -/
theorem place_start {config : Config} {pass : Pass} {id : ObjId} {cursor : Cursor}
    {entry : DatEntry} {placed : Placed} {s s' : Build} (latest : String)
    (h : Yields (place config pass id cursor entry) s placed s') :
  placed.start.walk latest = (cursor.walk latest).align entry.alignment
  := by
  cases places_of_place h with
  | label name alignment hstart =>
    subst hstart
    dsimp only
    split_ifs with hzero
    · simp [hzero, DatEntry.alignment, Walk.align]
    · rfl
  | orgx _ => apply (Walk.align_one _).symm
  | fit _ _ => apply (Walk.align_one _).symm
  | file _ => apply (Walk.align_one _).symm
  | _ => rfl

/-- The cog addresses behind an entry. -/
theorem place_origin {config : Config} {pass : Pass} {id : ObjId} {cursor : Cursor}
    {entry : DatEntry} {placed : Placed} {s s' after : Build}
    (h : Yields (place config pass id cursor entry) s placed s') (hgrows : s'.GrowsAt id after)
    (hid : id < s.objects.length) :
  let start := placed.start.walk (s.object id).latestLabel
  Yields (entry.origin (after.siteOn id start) start) after.memo placed.next.origin after.memo
  := by
  intro start
  cases places_of_place h with
  | org horigin hnext =>
    apply yields_bind.mpr
    refine ⟨_, after.memo, operandOr_finished horigin hgrows hid, ?_⟩
    rw [Cursor.setCog_eq hnext]
    apply yields_pure.mpr
    simp [Cursor.origin, start, Cursor.walk, Int.mul_comm]
  | res hlongs hnext =>
    apply yields_bind.mpr
    refine ⟨_, after.memo, operandOr_finished hlongs hgrows hid, ?_⟩
    rw [Cursor.setCog_eq hnext]
    apply yields_pure.mpr
    refine ⟨?_, rfl⟩
    simp only [Cursor.origin, start, Cursor.walk]
    split_ifs
    · rfl
    · rw [Option.map_some]
      congr 1
      omega
  | label _ _ _ => apply yields_pure.mpr ⟨rfl, rfl⟩
  | orgx _ => apply yields_pure.mpr ⟨rfl, rfl⟩
  | fit _ _ => apply yields_pure.mpr ⟨rfl, rfl⟩
  | instruction hnext => apply yields_pure.mpr ⟨Cursor.origin_advance hnext, rfl⟩
  | file hnext => apply yields_pure.mpr ⟨Cursor.origin_advance hnext, rfl⟩
  | data _ _ _ hnext => apply yields_pure.mpr ⟨Cursor.origin_advance hnext, rfl⟩

/-- Data is given room for its repetitions. -/
theorem place_data {config : Config} {pass : Pass} {id : ObjId} {cursor : Cursor} {item : DatData}
    {placed : Placed} {s s' after : Build}
    (h : Yields (place config pass id cursor (.data item)) s placed s')
    (hgrows : s'.GrowsAt id after) (hid : id < s.objects.length) :
  ∃ count, Yields
      ((after.siteOn id (placed.start.walk (s.object id).latestLabel)).evalIntOr 1 item.count)
      after.memo count after.memo
    ∧ placed.length / item.size.toNat = count.toNat
  := by
  cases places_of_place h with
  | data hsize hobjects hcount hnext =>
    obtain ⟨count, m, hoperand, h⟩ := yields_bind.mp hcount
    split_ifs at h
    · cases yields_failAt h
    · obtain ⟨rfl, rfl⟩ := yields_pure.mp h
      have hfinished := operandOr_finished hoperand hgrows (by rwa [hobjects])
      rw [Build.object, hobjects, ← Build.object] at hfinished
      use count, hfinished
      have hoffset := Cursor.offset_advance hnext
      rw [Placed.length]
      dsimp only
      rw [hoffset, Nat.add_sub_cancel_left, Nat.mul_div_cancel_left _ (dataSize_pos hsize)]

/-- What is written of an entry is its content in the finished build. -/
theorem payload_content {config : Config} {pass : Pass} {id : ObjId} {cursor : Cursor}
    {entry : DatEntry} {placed : Placed} {bytes : Bytes} {s t t' after : Build}
    (hplaced : Yields (place config pass id cursor entry) s placed t)
    (hpayload : Yields (payload id placed entry) t bytes t') (hgrows : t'.GrowsAt id after)
    (hid : id < s.objects.length) :
  let start := placed.start.walk (s.object id).latestLabel
  Yields (entry.content (after.siteOn id start)) after.memo bytes after.memo
  := by
  intro start
  obtain ⟨hobjects, _, _⟩ := place_replays _ _ _ _ _ _ _ hplaced
  have hidt : id < t.objects.length := by
    rwa [hobjects]
  have hobject : t.object id = s.object id := by
    rw [Build.object, hobjects, Build.object]
  cases entry with
  | label name alignment =>
    obtain ⟨_, _, _, h⟩ := yields_bind.mp hpayload
    obtain ⟨rfl, rfl⟩ := yields_pure.mp h
    apply yields_pure.mpr ⟨rfl, rfl⟩
  | instruction item =>
    obtain ⟨word, m, hword, h⟩ := yields_bind.mp hpayload
    obtain ⟨rfl, rfl⟩ := yields_pure.mp h
    have hfinished := evaluateAt_finished (fun _ _ hsite => assemble_repeats hsite item) hword
      hgrows hidt
    rw [hobject] at hfinished
    apply yields_bind.mpr
    use word, after.memo, hfinished
    apply yields_pure.mpr ⟨rfl, rfl⟩
  | data item =>
    obtain ⟨value, m, hvalue, rfl, hobjects', hmemo'⟩ := yields_dataBytes hpayload
    have hm : m.GrowsAt id after := by
      apply Build.GrowsAt.trans _ hgrows
      apply Build.GrowsAt.of_objects hobjects'
      rw [hmemo']
      apply Memo.Grows.refl
    have hfinished := evaluateAt_finished (fun _ _ hsite => Site.eval_repeats hsite item.value)
      hvalue hm hidt
    rw [hobject] at hfinished
    obtain ⟨count, hcount, hlength⟩ := place_data hplaced
      ((payload_growsAt hpayload).trans hgrows) hid
    apply yields_bind.mpr
    use count, after.memo, hcount
    apply yields_bind.mpr
    use value, after.memo, hfinished
    apply yields_pure.mpr
    rw [hlength]
    exact ⟨rfl, rfl⟩
  | _ =>
    obtain ⟨rfl, rfl⟩ := yields_pure.mp hpayload
    apply yields_pure.mpr ⟨rfl, rfl⟩

/-- Behind an entry, the latest label is the entry if that is a label which is not local. -/
theorem payload_latest {id : ObjId} {placed : Placed} {entry : DatEntry} {bytes : Bytes}
    {s s' : Build} (h : Yields (payload id placed entry) s bytes s')
    (hid : id < s.objects.length) :
  (s'.object id).latestLabel = entry.latest (s.object id).latestLabel
  := by
  obtain ⟨hobjects, _⟩ := payload_frame h
  have hobject : s'.object id = (s.object id).behind entry := by
    rw [Build.object, hobjects]
    apply objectAt_modify_self _ hid
  rw [hobject]
  cases entry with
  | label name alignment =>
    dsimp only [Object.behind, Object.passLabel, DatEntry.latest]
    split_ifs <;> rfl
  | _ => rfl

/-! ### All entries -/

theorem writeThrough_append (config : Config) (id : ObjId) (base : Nat) (cursor : Cursor)
    (block : Bytes) (front back : List DatEntry) :
  writeThrough config id base cursor block (front ++ back)
    = writeThrough config id base cursor block front >>= fun (next, block) =>
      writeThrough config id base next block back
  := by
  induction front generalizing cursor block with
  | nil => rfl
  | cons entry front ih => simp only [List.cons_append, writeThrough, ih, bind_assoc]

theorem writeThrough_growsAt {config : Config} {id : ObjId} {base : Nat} {cursor next : Cursor}
    {block block' : Bytes} {entries : List DatEntry} {s s' : Build}
    (h : Yields (writeThrough config id base cursor block entries) s (next, block') s') :
  s.GrowsAt id s'
  := by
  induction entries generalizing cursor block s with
  | nil =>
    obtain ⟨_, rfl⟩ := yields_pure.mp h
    apply Build.GrowsAt.refl
  | cons entry rest ih =>
    obtain ⟨placed, t, hplaced, h⟩ := yields_bind.mp h
    obtain ⟨bytes, t', hpayload, hrest⟩ := yields_bind.mp h
    apply (place_growsAt hplaced).trans
    apply (payload_growsAt hpayload).trans
    apply ih hrest

end Step

/-- What is written into zeros divides them. -/
theorem Bytes.overwrite_zeros (front bytes : Bytes) {gap room : Nat}
    (hroom : gap + bytes.length ≤ room) :
  Bytes.overwrite (front ++ List.replicate room 0) (front.length + gap) bytes
    = (front ++ List.replicate gap 0 ++ bytes)
      ++ List.replicate (room - (gap + bytes.length)) 0
  := by
  have htake : (front ++ List.replicate room 0).take (front.length + gap)
      = front ++ List.replicate gap 0 := by
    rw [List.take_length_add_append, List.take_replicate, min_eq_left (by omega)]
  have hdrop : (front ++ List.replicate room 0).drop (front.length + gap + bytes.length)
      = List.replicate (room - (gap + bytes.length)) (0 : UInt8) := by
    rw [Nat.add_assoc, List.drop_length_add_append, List.drop_replicate]
  rw [Bytes.overwrite, htake, hdrop]

namespace Step

/-- The step of the argument: an entry that is placed and written in the pass is the next one of the
walk in the finished build. -/
theorem entry_serialized {config : Config} {id : ObjId} {cursor : Cursor} {entry : DatEntry}
    {placed : Placed} {bytes : Bytes} {s t t' after : Build}
    (hplaced : Yields (place config .write id cursor entry) s placed t)
    (hpayload : Yields (payload id placed entry) t bytes t') (hgrows : t'.GrowsAt id after)
    (hid : id < s.objects.length) (rest : List DatEntry) :
  cursor.offset ≤ placed.start.offset
    ∧ placed.next.offset = placed.start.offset + bytes.length
    ∧ after.serialize id (cursor.walk (s.object id).latestLabel) (entry :: rest)
      = (after.serialize id (placed.next.walk (t'.object id).latestLabel) rest).map
        fun (last, more) =>
          (last, List.replicate (placed.start.offset - cursor.offset) 0 ++ bytes ++ more)
  := by
  obtain ⟨hstart, length, htakes, hnext⟩ := place_room hplaced
  obtain rfl := payload_length htakes hnext hpayload
  refine ⟨hstart, hnext, ?_⟩
  have hwalk := place_start (s.object id).latestLabel hplaced
  have horigin := place_origin hplaced ((payload_growsAt hpayload).trans hgrows) hid
  have hcontent := payload_content hplaced hpayload hgrows hid
  have hbehind : (t'.object id).latestLabel = entry.latest (s.object id).latestLabel := by
    obtain ⟨hobjects, _, _⟩ := place_replays _ _ _ _ _ _ _ hplaced
    have hobject : t.object id = s.object id := by
      rw [Build.object, hobjects, Build.object]
    rw [payload_latest hpayload (by rwa [hobjects]), hobject]
  rw [Build.serialize_cons hwalk.symm (Build.evaluated?_of_yields hcontent)
    (Build.evaluated?_of_yields horigin), hbehind, Cursor.walk, Cursor.walk, Cursor.walk, hnext]

/-- The run of the argument: written into zeros, entries leave the bytes of the walk and the zeros
behind them. -/
theorem writeThrough_serialized {config : Config} {id : ObjId} {base room : Nat}
    {cursor next : Cursor} {front block : Bytes} {entries : List DatEntry} {s s' after : Build}
    (hid : id < s.objects.length) (hbase : base + front.length = cursor.offset)
    (hroom : next.offset ≤ cursor.offset + room)
    (h : Yields (writeThrough config id base cursor (front ++ List.replicate room 0) entries) s
      (next, block) s')
    (hgrows : s'.GrowsAt id after) :
  ∃ bytes, after.serialize id (cursor.walk (s.object id).latestLabel) entries
      = some (next.walk (s'.object id).latestLabel, bytes)
    ∧ next.offset = cursor.offset + bytes.length
    ∧ block = front ++ bytes ++ List.replicate (room - bytes.length) 0
  := by
  induction entries generalizing cursor front room s with
  | nil =>
    obtain ⟨heq, rfl⟩ := yields_pure.mp h
    cases heq
    refine ⟨[], rfl, rfl, ?_⟩
    rw [List.append_nil]
    rfl
  | cons entry rest ih =>
    obtain ⟨placed, t, hplaced, hbehind⟩ := yields_bind.mp h
    obtain ⟨content, t', hpayload, hrest⟩ := yields_bind.mp hbehind
    have ht' : s.GrowsAt id t' := (place_growsAt hplaced).trans (payload_growsAt hpayload)
    obtain ⟨hstart, hnext, hserialize⟩ := entry_serialized hplaced hpayload
      ((writeThrough_growsAt hrest).trans hgrows) hid rest
    have hforward := writeThrough_forward hrest
    generalize hgap : placed.start.offset - cursor.offset = gap at hserialize
    have hposition : placed.start.offset - base = front.length + gap := by
      omega
    rw [hposition, Bytes.overwrite_zeros _ _ (by omega)] at hrest
    have hlength : (front ++ List.replicate gap 0 ++ content).length
        = front.length + gap + content.length := by
      rw [List.length_append, List.length_append, List.length_replicate]
    obtain ⟨more, hmore, hlast, rfl⟩ := ih (by rwa [ht'.length]) (by omega) (by omega) hrest
    refine ⟨List.replicate gap 0 ++ content ++ more, ?_, ?_, ?_⟩
    · rw [hserialize, hmore]
      rfl
    · simp only [List.length_append, List.length_replicate]
      omega
    · simp only [List.append_assoc, List.length_append, List.length_replicate, Nat.sub_sub,
        Nat.add_assoc]

theorem writeThrough_blank {config : Config} {id : ObjId} {base room : Nat} {cursor next : Cursor}
    {block : Bytes} {entries : List DatEntry} {s s' after : Build} (hid : id < s.objects.length)
    (h : Yields (writeThrough config id base cursor (List.replicate room 0) entries) s
      (next, block) s')
    (hgrows : s'.GrowsAt id after) (hbase : base = cursor.offset)
    (hroom : next.offset ≤ cursor.offset + room) :
  ∃ bytes, after.serialize id (cursor.walk (s.object id).latestLabel) entries
      = some (next.walk (s'.object id).latestLabel, bytes)
    ∧ next.offset = cursor.offset + bytes.length
    ∧ block = bytes ++ List.replicate (room - bytes.length) 0
  := by
  rw [← List.nil_append (List.replicate room 0)] at h
  apply writeThrough_serialized hid _ hroom h hgrows
  exact hbase

/-- A run over entries, cut at one of them. -/
theorem writeThrough_cut {config : Config} {id : ObjId} {base : Nat} {cursor next : Cursor}
    {block block' : Bytes} {entries : List DatEntry} {s s' : Build}
    (h : Yields (writeThrough config id base cursor block entries) s (next, block') s') {k : Nat}
    {entry : DatEntry} (hentry : entries[k]? = some entry) :
  ∃ middle front t placed t' bytes t'',
    Yields (writeThrough config id base cursor block (entries.take k)) s (middle, front) t
      ∧ Yields (place config .write id middle entry) t placed t'
      ∧ Yields (payload id placed entry) t' bytes t''
      ∧ Yields (writeThrough config id base placed.next
          (front.overwrite (placed.start.offset - base) bytes) (entries.drop (k + 1)))
        t'' (next, block') s'
  := by
  obtain ⟨hk, rfl⟩ := List.getElem?_eq_some_iff.mp hentry
  rw [← List.take_append_drop k entries, writeThrough_append, List.drop_eq_getElem_cons hk] at h
  obtain ⟨⟨middle, front⟩, t, hfront, hback⟩ := yields_bind.mp h
  obtain ⟨placed, t', hplaced, hback⟩ := yields_bind.mp hback
  obtain ⟨bytes, t'', hpayload, hrest⟩ := yields_bind.mp hback
  exact ⟨middle, front, t, placed, t', bytes, t'', hfront, hplaced, hpayload, hrest⟩

/-- A label that is checked is known, and stands where it is checked. -/
theorem yields_checkLabel {id : ObjId} {start : Cursor} {name : Ident} {s s' : Build} {u : Unit}
    (h : Yields (checkLabel id start name) s u s') :
  ∃ label, (s.object id).labelOf? name.name = some label ∧ label.offset = start.offset
  := by
  replace h := yields_object_bind.mp h
  cases hlabel : (s.object id).labelOf? name.name with
  | none =>
    rw [hlabel] at h
    cases yields_failAt h
  | some label =>
    rw [hlabel] at h
    dsimp only at h
    split_ifs at h with hmoved
    · cases yields_failAt h
    · use label, rfl
      by_contra hoffset
      apply hmoved (.inl hoffset)

/-- The labels that measuring adds are those of label entries, where these are placed. -/
theorem measureFrom_declares {config : Config} {id : ObjId} {cursor next : Cursor}
    {entries : List DatEntry} {s s' : Build}
    (h : Yields (measureFrom config id cursor entries) s next s')
    {label : Label} (hlabel : label ∈ (s'.object id).labels) :
  label ∈ (s.object id).labels
    ∨ ∃ k name alignment middle m placed m', entries[k]? = some (.label name alignment)
      ∧ Yields (measureFrom config id cursor (entries.take k)) s middle m
      ∧ Yields (place config .measure id middle (.label name alignment)) m placed m'
      ∧ label = placed.start.label name
  := by
  induction entries generalizing cursor s with
  | nil =>
    obtain ⟨rfl, rfl⟩ := yields_pure.mp h
    left
    exact hlabel
  | cons entry rest ih =>
    rw [measureFrom_cons] at h
    obtain ⟨middle, m, hentry, hrest⟩ := yields_bind.mp h
    rcases ih hrest with hmiddle | ⟨k, name, alignment, last, m', placed, m'', hk, hto, hfound⟩
    · rcases measureEntry_declares hentry hmiddle with hold | hnew
      · left
        exact hold
      · right
        obtain ⟨name, alignment, placed, m', rfl, hplaced, _, rfl⟩ := hnew
        exact ⟨0, name, alignment, cursor, s, placed, m', rfl, yields_pure.mpr ⟨rfl, rfl⟩, hplaced,
          rfl⟩
    · right
      refine ⟨k + 1, name, alignment, last, m', placed, m'', hk, ?_, hfound⟩
      rw [List.take_succ_cons, measureFrom_cons]
      apply yields_bind.mpr
      exact ⟨middle, m, hentry, hto⟩

end Step

theorem Object.Grows.labelOf {object object' : Object} (h : object.Grows object')
    (hlatest : object'.latestLabel = object.latestLabel) {name : String} {label : Label}
    (hlabel : object.labelOf? name = some label) :
  object'.labelOf? name = some label
  := by
  have hkey : object'.key name = object.key name := by
    rw [Object.key, Object.key, hlatest]
  rw [Object.labelOf?_eq] at hlabel ⊢
  rw [hkey]
  apply h.labelUnder hlabel

theorem Object.mem_labels_of_labelOf {object : Object} {name : String} {label : Label}
    (hlabel : object.labelOf? name = some label) :
  label ∈ object.labels
  := by
  rw [Object.labelOf?] at hlabel
  split at hlabel
  · apply List.mem_of_getElem? hlabel
  · cases hlabel

/-- Entry number `k` of a section comes behind the bytes `front` of the entries before it and the
zeros that its alignment needs. -/
structure Build.StandsBehind (build : Build) (id : ObjId) (k : Nat) (entry : DatEntry) (walk : Walk)
    (front : Bytes) (zeros : Nat) (content : Bytes) : Prop where
  found : (build.object id).dat[k]? = some entry
  before : build.serialize id (.start (build.object id).headerSize) ((build.object id).dat.take k)
    = some (walk, front)
  offset : walk.offset = (build.object id).headerSize + front.length
  padding : walk.offset + zeros = alignUp walk.offset entry.alignment
  behind : ∃ next, build.serialize id (.start (build.object id).headerSize)
      ((build.object id).dat.take (k + 1))
    = some (next, front ++ List.replicate zeros 0 ++ content)

/-- There are no more zeros than the alignment needs. -/
theorem Build.StandsBehind.isLeast {build : Build} {id : ObjId} {k : Nat} {entry : DatEntry}
    {walk : Walk} {front content : Bytes} {zeros exponent : Nat}
    (h : build.StandsBehind id k entry walk front zeros content)
    (halign : entry.alignment = 2 ^ exponent) :
  IsLeast {n | 2 ^ exponent ∣ (build.object id).headerSize + front.length + n} zeros
  := by
  have hzeros := h.padding
  rw [halign] at hzeros
  obtain ⟨⟨_, hdvd⟩, hleast⟩ := alignUp_isLeast walk.offset exponent
  rw [← h.offset]
  constructor
  · change 2 ^ exponent ∣ walk.offset + zeros
    rwa [hzeros]
  · intro n hn
    have := hleast ⟨Nat.le_add_right walk.offset n, hn⟩
    omega

namespace Step

/-- The writing pass puts `bytes` for entry number `k` over the section from `position` on. -/
def Puts (config : Config) (id : ObjId) (laid : Build) (k : Nat) (entry : DatEntry)
    (position : Nat) (bytes : Bytes) : Prop :=
  ∃ cursor block t placed t' t'', Yields (writeTo config id k) laid (cursor, block) t
    ∧ Yields (place config .write id cursor entry) t placed t'
    ∧ Yields (payload id placed entry) t' bytes t''
    ∧ position = placed.start.offset - (laid.object id).headerSize

theorem Puts.unique {config : Config} {id : ObjId} {laid : Build} {k : Nat} {entry : DatEntry}
    {position position' : Nat} {bytes bytes' : Bytes}
    (h : Puts config id laid k entry position bytes)
    (h' : Puts config id laid k entry position' bytes') :
  position = position' ∧ bytes = bytes'
  := by
  obtain ⟨cursor, block, t, placed, t', t'', hto, hplaced, hpayload, rfl⟩ := h
  obtain ⟨cursor', block', m, placed', m', m'', hto', hplaced', hpayload', rfl⟩ := h'
  obtain ⟨heq, rfl⟩ := hto.unique hto'
  cases heq
  obtain ⟨rfl, rfl⟩ := hplaced.unique hplaced'
  obtain ⟨rfl, rfl⟩ := hpayload.unique hpayload'
  exact ⟨rfl, rfl⟩

/-- The writing pass that `after` is the result of: it went over all entries of `laid` and ended
where the section does. -/
structure Wrote (config : Config) (id : ObjId) (laid after : Build) (last : Cursor) (t : Build) :
    Prop where
  run : Yields (writeThrough config id (laid.object id).headerSize
    (.start (laid.object id).headerSize) (List.replicate (laid.object id).datBytes.length 0)
    (laid.object id).dat) (laid.clearLatest id) (last, (after.object id).datBytes) t
  inside : id < laid.objects.length
  grows : t.GrowsAt id after
  ends : last.offset = (laid.object id).headerSize + (laid.object id).datBytes.length

theorem writeDat_wrote {config : Config} {id : ObjId} {before measured laid after : Build}
    {u₁ u₂ u₃ : Unit} (hid : id < before.objects.length)
    (hmeasure : Yields (measureDat config id) before u₁ measured)
    (hvars : Yields (inObject id (placeVars id)) measured u₂ laid)
    (hwrite : Yields (writeDat config id) laid u₃ after) :
  ∃ last t, Wrote config id laid after last t
  := by
  obtain ⟨last, s', hmeasured, hgrows, _, hroom⟩ := yields_measureDat hmeasure
  obtain ⟨hgrows', hbytes⟩ := yields_placeVars (yields_inObject.mp hvars)
  have hlater := hgrows.trans hgrows'
  have hgrown := grows_of_measureTo hmeasured hlater
  have hends : last.offset = (laid.object id).headerSize + (laid.object id).datBytes.length := by
    rw [hbytes, (hgrows'.objects id).headerSize, hroom]
  have hidl : id < laid.objects.length := by
    rwa [hlater.length, (measureFrom_growsAt (yields_measureTo.mp hmeasured)).1.length,
      Build.clearLatest, Build.length_modifyObject]
  -- the second walk ends where the first did, and that is the end of the section
  obtain ⟨cursor, block, t, hto, rfl⟩ := yields_writeDat hwrite
  obtain ⟨_, _, hagain, _⟩ := writeTo_follows hmeasured hlater hends.le hto
  rw [hgrown.dat] at hagain
  obtain ⟨rfl, rfl⟩ := hagain.unique hmeasured
  rw [yields_writeTo, List.take_length] at hto
  have hidt : id < t.objects.length := by
    rwa [(writeThrough_growsAt hto).length, Build.clearLatest, Build.length_modifyObject]
  use cursor, t
  refine ⟨?_, hidl, ?_, hends⟩
  · rwa [Build.object_modifyObject_self _ hidt]
  · apply Build.GrowsAt.modifyObject
    exact ⟨List.prefix_rfl, rfl, List.prefix_rfl, rfl, rfl, rfl, rfl⟩

namespace Wrote

variable {config : Config} {id : ObjId} {laid after t : Build} {last : Cursor}

theorem grown (h : Wrote config id laid after last t) :
  (laid.object id).Grows (after.object id)
  := by
  apply (Object.grows_latest _ "").trans
  rw [← Build.object_clearLatest]
  apply ((writeThrough_growsAt h.run).trans h.grows).objects id

theorem inside_clear (h : Wrote config id laid after last t) :
  id < (laid.clearLatest id).objects.length
  := by
  rw [Build.clearLatest, Build.length_modifyObject]
  exact h.inside

/-- The section is the walk over all its entries. -/
theorem serialize (h : Wrote config id laid after last t) :
  after.serialize id (.start (after.object id).headerSize) (after.object id).dat
    = some (last.walk (t.object id).latestLabel, (after.object id).datBytes)
  := by
  have hends := h.ends
  obtain ⟨bytes, hbytes, hlast, hblock⟩ :=
    writeThrough_blank h.inside_clear h.run h.grows rfl hends.le
  rw [Build.object_clearLatest] at hbytes
  have hlength : (laid.object id).datBytes.length = bytes.length := by
    rw [hends] at hlast
    apply Nat.add_left_cancel hlast
  rw [hlength, Nat.sub_self, List.replicate_zero, List.append_nil] at hblock
  rw [hblock, h.grown.headerSize, h.grown.dat]
  exact hbytes

/-- Each entry stands behind those before it and the zeros its alignment needs, and its content is
put there. A label has this place too. -/
theorem entry (h : Wrote config id laid after last t) {k : Nat} {entry : DatEntry}
    (hentry : (after.object id).dat[k]? = some entry) :
  ∃ walk front zeros content, after.StandsBehind id k entry walk front zeros content
    ∧ Puts config id laid k entry (front.length + zeros) content
    ∧ ∀ name alignment, entry = .label name alignment →
      ∃ label, { after.object id with latestLabel := walk.latest }.labelOf? name.name = some label
        ∧ label.offset = (after.object id).headerSize + (front.length + zeros)
  := by
  have hends := h.ends
  have hgrown := h.grown
  rw [hgrown.dat] at hentry
  obtain ⟨middle, block, m, placed, m', content, m'', hto, hplaced, hpayload, hrest⟩ :=
    writeThrough_cut h.run hentry
  have hbehind : m''.GrowsAt id after := (writeThrough_growsAt hrest).trans h.grows
  have hmiddle : m.GrowsAt id after :=
    (place_growsAt hplaced).trans ((payload_growsAt hpayload).trans hbehind)
  have hidm : id < m.objects.length := by
    rw [(writeThrough_growsAt hto).length]
    exact h.inside_clear
  obtain ⟨hstart, hnext, hone⟩ := entry_serialized hplaced hpayload hbehind hidm []
  have hforward := writeThrough_forward hrest
  have hroom : middle.offset
      ≤ (Cursor.start (laid.object id).headerSize).offset + (laid.object id).datBytes.length := by
    change _ ≤ (laid.object id).headerSize + _
    omega
  obtain ⟨front, hfront, hoffset, -⟩ := writeThrough_blank h.inside_clear hto hmiddle rfl hroom
  change middle.offset = (laid.object id).headerSize + front.length at hoffset
  have hwalk : (Cursor.start (laid.object id).headerSize).walk
      ((laid.clearLatest id).object id).latestLabel = .start (laid.object id).headerSize := by
    rw [Build.object_clearLatest]
    rfl
  rw [hwalk] at hfront
  have hzeros : middle.offset + (placed.start.offset - middle.offset)
      = alignUp middle.offset entry.alignment := by
    have := congrArg Walk.offset (place_start "" hplaced)
    change placed.start.offset = alignUp middle.offset entry.alignment at this
    omega
  rw [hgrown.headerSize]
  refine ⟨middle.walk (m.object id).latestLabel, front, placed.start.offset - middle.offset,
    content, ⟨?_, ?_, ?_, hzeros, ?_⟩, ?_, ?_⟩
  · rwa [hgrown.dat]
  · rwa [hgrown.dat, hgrown.headerSize]
  · rwa [hgrown.headerSize]
  · rw [hgrown.dat, hgrown.headerSize, List.take_add_one, hentry, Build.serialize_append, hfront]
    use placed.next.walk (m''.object id).latestLabel
    dsimp only [Option.bind_some, Option.toList_some]
    rw [hone]
    simp [Build.serialize]
  · refine ⟨middle, block, m, placed, m', m'', yields_writeTo.mpr hto, hplaced, hpayload, ?_⟩
    omega
  · rintro name alignment rfl
    obtain ⟨_, _, hcheck, _⟩ := yields_bind.mp hpayload
    obtain ⟨label, hlabel, hplace⟩ := yields_checkLabel hcheck
    have hobject : m'.object id = m.object id := (place_quiet _ _ _ _ _ _ _ _ hplaced).object id
    use label
    constructor
    · rw [hobject] at hlabel
      apply Object.Grows.labelOf _ _ hlabel
      · apply (hmiddle.objects id).trans (Object.grows_latest _ _)
      · rfl
    · omega

/-- What is put for an entry ends in front of what is put for a later one. -/
theorem puts_apart (h : Wrote config id laid after last t) {j k : Nat} {first second : DatEntry}
    {position position' : Nat} {bytes bytes' : Bytes} (hlt : j < k)
    (hfirst : (after.object id).dat[j]? = some first)
    (hsecond : (after.object id).dat[k]? = some second)
    (hputs : Puts config id laid j first position bytes)
    (hputs' : Puts config id laid k second position' bytes') :
  position + bytes.length ≤ position'
  := by
  obtain ⟨_, front, zeros, content, hstands, hcontent, _⟩ := h.entry hfirst
  obtain ⟨_, front', zeros', content', hstands', hcontent', _⟩ := h.entry hsecond
  obtain ⟨rfl, rfl⟩ := hputs.unique hcontent
  obtain ⟨rfl, rfl⟩ := hputs'.unique hcontent'
  obtain ⟨_, hbehind⟩ := hstands.behind
  have hprefix := (Build.serialize_take_prefix hlt hbehind hstands'.before).length_le
  rw [List.length_append, List.length_append, List.length_replicate] at hprefix
  omega

end Wrote

/-- A label that was not there before stands where its entry does. -/
theorem label_stands {config : Config} {id : ObjId} {before measured laid after t : Build}
    {u₁ u₂ u₃ : Unit} {last : Cursor}
    (hmeasure : Yields (measureDat config id) before u₁ measured)
    (hvars : Yields (inObject id (placeVars id)) measured u₂ laid)
    (hwrite : Yields (writeDat config id) laid u₃ after)
    (h : Wrote config id laid after last t) {label : Label}
    (hlabel : label ∈ (after.object id).labels) :
  label ∈ (before.object id).labels
    ∨ ∃ k name alignment walk front zeros content,
      after.StandsBehind id k (.label name alignment) walk front zeros content ∧ label.name = name
        ∧ label.offset = (after.object id).headerSize + (front.length + zeros)
  := by
  have hkeeps := (writeDat_keeping config id _ _ _ hwrite).self.trans
    ((placeVars_keeping id).inObject _ _ _ hvars).self
  obtain ⟨last', s', hmeasured, hgrows, hlabels, hroom⟩ := yields_measureDat hmeasure
  obtain ⟨hgrows', hbytes⟩ := yields_placeVars (yields_inObject.mp hvars)
  have hlater := hgrows.trans hgrows'
  have hgrown := grows_of_measureTo hmeasured hlater
  have hroom' : last'.offset ≤ (laid.object id).headerSize + (laid.object id).datBytes.length := by
    rw [hbytes, (hgrows'.objects id).headerSize, hroom]
  have hsame : (after.object id).labels = (s'.object id).labels :=
    (congrArg Prod.snd hkeeps).trans hlabels
  rw [hsame] at hlabel
  have hrun := yields_measureTo.mp hmeasured
  rw [List.take_length] at hrun
  rcases measureFrom_declares hrun hlabel with hold | hnew
  · left
    rwa [Build.object_clearLatest] at hold
  · right
    obtain ⟨k, name, alignment, middle, m, placed, m', hk, hto, hplaced, rfl⟩ := hnew
    have hentry : (after.object id).dat[k]? = some (.label name alignment) := by
      rwa [h.grown.dat, hgrown.dat]
    obtain ⟨walk, front, zeros, content, hstands, hputs, _⟩ := h.entry hentry
    refine ⟨k, name, alignment, walk, front, zeros, content, hstands, rfl, ?_⟩
    -- the writing pass comes to the entry as the measuring pass did
    obtain ⟨cursor, block, n, placed', n', n'', hwriteTo, hwritten, _, hposition⟩ := hputs
    obtain ⟨_, s, hagain, _, hmeets⟩ := writeTo_follows hmeasured hlater hroom' hwriteTo
    obtain ⟨placed'', hmeet⟩ := hmeets _ (by rwa [hgrown.dat])
    obtain ⟨rfl, rfl⟩ := hagain.unique (yields_measureTo.mpr hto)
    obtain ⟨_, hmeasured'⟩ := hmeet.measured
    obtain ⟨rfl, rfl⟩ := hmeasured'.unique hplaced
    obtain ⟨rfl, rfl⟩ := hmeet.written.unique hwritten
    have hforward : (before.object id).headerSize ≤ cursor.offset := (measureFrom_growsAt hto).2
    have hstart := (place_room hplaced).1
    rw [h.grown.headerSize, hgrown.headerSize]
    rw [hgrown.headerSize] at hposition
    dsimp only [Cursor.label]
    omega

/-- The section that the passes leave is the concatenation, entry after entry, of the zeros that the
alignment of the entry needs and of its content. Contents are put where they stand in it, none over
another. Every label entry has a label at its place, and every label that the passes have added
stands at its entry. -/
theorem writeDat_serializes {config : Config} {id : ObjId} {before measured laid after : Build}
    (hid : id < before.objects.length)
    (hmeasure : Yields (measureDat config id) before () measured)
    (hvars : Yields (inObject id (placeVars id)) measured () laid)
    (hwrite : Yields (writeDat config id) laid () after) :
  let object := after.object id
  (∃ last, after.serialize id (.start object.headerSize) object.dat = some (last, object.datBytes))
  ∧ (∀ k entry, object.dat[k]? = some entry →
    ∃ walk front zeros content, after.StandsBehind id k entry walk front zeros content
      ∧ (∀ exponent, entry.alignment = 2 ^ exponent →
        IsLeast {n | 2 ^ exponent ∣ object.headerSize + front.length + n} zeros)
      ∧ Puts config id laid k entry (front.length + zeros) content
      ∧ front ++ List.replicate zeros 0 ++ content <+: object.datBytes
      ∧ ∀ name alignment, entry = .label name alignment →
        ∃ label ∈ object.labels,
          { object with latestLabel := walk.latest }.labelOf? name.name = some label
          ∧ label.offset - object.headerSize = (front ++ List.replicate zeros 0).length)
  ∧ (∀ j k first second position position' bytes bytes', j < k →
    object.dat[j]? = some first → object.dat[k]? = some second →
    Puts config id laid j first position bytes → Puts config id laid k second position' bytes' →
    position + bytes.length ≤ position')
  ∧ ∀ label ∈ object.labels, label ∈ (before.object id).labels
    ∨ ∃ k name alignment walk front zeros content,
      after.StandsBehind id k (.label name alignment) walk front zeros content ∧ label.name = name
        ∧ label.offset - object.headerSize = (front ++ List.replicate zeros 0).length
  := by
  obtain ⟨last, t, h⟩ := writeDat_wrote hid hmeasure hvars hwrite
  intro object
  have hlength (front : Bytes) (zeros : Nat) :
      (front ++ List.replicate zeros 0).length = front.length + zeros := by
    rw [List.length_append, List.length_replicate]
  refine ⟨⟨_, h.serialize⟩, ?_, ?_, ?_⟩
  · intro k entry hentry
    obtain ⟨walk, front, zeros, content, hstands, hputs, hlabel⟩ := h.entry hentry
    refine ⟨walk, front, zeros, content, hstands, fun _ => hstands.isLeast, hputs, ?_, ?_⟩
    · obtain ⟨next, hbehind⟩ := hstands.behind
      obtain ⟨hk, _⟩ := List.getElem?_eq_some_iff.mp hentry
      have hall := h.serialize
      rw [← (after.object id).dat.take_length] at hall
      apply Build.serialize_take_prefix hk hbehind hall
    · intro name alignment hname
      obtain ⟨label, hfound, hoffset⟩ := hlabel name alignment hname
      refine ⟨label, ?_, hfound, ?_⟩
      · apply Object.mem_labels_of_labelOf hfound
      · rw [hoffset, hlength, Nat.add_sub_cancel_left]
  · intro j k first second position position' bytes bytes' hlt hfirst hsecond hputs hputs'
    apply h.puts_apart hlt hfirst hsecond hputs hputs'
  · intro label hmem
    rcases label_stands hmeasure hvars hwrite h hmem with hold | hnew
    · left
      exact hold
    · right
      obtain ⟨k, name, alignment, walk, front, zeros, content, hstands, hname, hoffset⟩ := hnew
      refine ⟨k, name, alignment, walk, front, zeros, content, hstands, hname, ?_⟩
      rw [hoffset, hlength, Nat.add_sub_cancel_left]

/-- The section of the loop: the byte 7, zeros up to the next long, the jump to cog address 8, and
three longs with the offset of `finish`. -/
theorem writeDat_serializes_loop :
  ∃ measured laid after, Yields (measureDat {} 0) loopBuild () measured
    ∧ Yields (inObject 0 (placeVars 0)) measured () laid
    ∧ Yields (writeDat {} 0) laid () after
    ∧ (after.object 0).datBytes
      = [7, 0, 0, 0, 8, 0, 124, 92, 28, 0, 0, 0, 28, 0, 0, 0, 28, 0, 0, 0]
    ∧ ∃ last, after.serialize 0 (.start 8) (after.object 0).dat
      = some (last, (after.object 0).datBytes)
  := by
  have hmeasured : ((measureDat {} 0).run.run loopBuild).1 = .ok () := by decide +kernel
  have hlaid : ((inObject 0 (placeVars 0)).run.run ((measureDat {} 0).run.run loopBuild).2).1
      = .ok () := by decide +kernel
  have hwritten : ((writeDat {} 0).run.run ((inObject 0 (placeVars 0)).run.run
      ((measureDat {} 0).run.run loopBuild).2).2).1 = .ok () := by decide +kernel
  have hbytes : (((writeDat {} 0).run.run ((inObject 0 (placeVars 0)).run.run
      ((measureDat {} 0).run.run loopBuild).2).2).2.object 0).datBytes
      = [7, 0, 0, 0, 8, 0, 124, 92, 28, 0, 0, 0, 28, 0, 0, 0, 28, 0, 0, 0] := by
    decide +kernel
  have hheader : (((writeDat {} 0).run.run ((inObject 0 (placeVars 0)).run.run
      ((measureDat {} 0).run.run loopBuild).2).2).2.object 0).headerSize = 8 := by
    decide +kernel
  have hmeasure := Yields.of_result hmeasured
  have hvars := Yields.of_result hlaid
  have hwrite := Yields.of_result hwritten
  generalize ((measureDat {} 0).run.run loopBuild).2 = measured at *
  generalize ((inObject 0 (placeVars 0)).run.run measured).2 = laid at *
  generalize ((writeDat {} 0).run.run laid).2 = after at *
  obtain ⟨hserialize, _⟩ := writeDat_serializes (by decide) hmeasure hvars hwrite
  rw [hheader] at hserialize
  exact ⟨measured, laid, after, hmeasure, hvars, hwrite, hbytes, hserialize⟩

end Step

end SpinHub
