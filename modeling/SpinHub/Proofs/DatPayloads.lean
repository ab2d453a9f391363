import Mathlib
import SpinHub.Proofs.Bytes
import SpinHub.Proofs.Frames

/-!
# Payloads of DAT entries

The writing pass puts the payload of an entry where the entry is placed. What it writes later stands
further back, so in the end the section holds the payload of every entry.
-/

namespace SpinHub

open Bytes

/-! ### Bytes that are written over -/

namespace Bytes

theorem holds_overwrite_self {block bytes : Bytes} {start : Nat}
    (hinside : start + bytes.length ≤ block.length) :
  Holds (block.overwrite start bytes) start bytes
  := by
  have hlength : (block.take start).length = start := by
    rw [List.length_take]
    omega
  have hholds := (holds_append.mp (holds_append_right (block.take start)
    (bytes ++ block.drop (start + bytes.length)))).1
  rwa [hlength, ← List.append_assoc] at hholds

/-- What stands in front of the bytes that are written over stays. -/
theorem Holds.overwrite {block bytes inner : Bytes} {address start : Nat}
    (h : Holds block address inner) (hbefore : address + inner.length ≤ start)
    (hinside : start ≤ block.length) :
  Holds (block.overwrite start bytes) address inner
  := by
  have hfront : Holds (block.take start) address inner := by
    rw [Holds, List.drop_take, List.prefix_take_iff]
    exact ⟨h, by omega⟩
  rw [Bytes.overwrite, List.append_assoc]
  rw [Holds, List.drop_append_of_le_length]
  · exact hfront.trans (List.prefix_append ..)
  · rw [List.length_take]
    omega

end Bytes

namespace Step

/-- The walk never goes back. -/
theorem writeThrough_forward {config : Config} {id : ObjId} {base : Nat} {cursor next : Cursor}
    {block block' : Bytes} {entries : List DatEntry} {s s' : Build}
    (h : Yields (writeThrough config id base cursor block entries) s (next, block') s') :
  cursor.offset ≤ next.offset
  := by
  induction entries generalizing cursor block s with
  | nil =>
    obtain ⟨heq, _⟩ := yields_pure.mp h
    cases heq
    rfl
  | cons entry rest ih =>
    obtain ⟨placed, t, hplaced, h⟩ := yields_bind.mp h
    obtain ⟨bytes, t', hpayload, hrest⟩ := yields_bind.mp h
    obtain ⟨hstart, length, _, hnext⟩ := place_room hplaced
    have hbehind := ih hrest
    omega

/-- Where the walk ends inside the block, it keeps what stands in front of it and writes the payload
of each entry where the entry is placed. -/
theorem writeThrough_holds {config : Config} {id : ObjId} {base : Nat} {cursor next : Cursor}
    {block block' : Bytes} {entries : List DatEntry} {s s' : Build}
    (hbase : base ≤ cursor.offset) (hroom : next.offset ≤ base + block.length)
    (h : Yields (writeThrough config id base cursor block entries) s (next, block') s') :
  (∀ {address inner}, Holds block address inner →
      base + (address + inner.length) ≤ cursor.offset → Holds block' address inner)
    ∧ ∀ {k entry}, entries[k]? = some entry →
      ∃ middle front t placed t' bytes t'',
        Yields (writeThrough config id base cursor block (entries.take k)) s (middle, front) t
        ∧ Yields (place config .write id middle entry) t placed t'
        ∧ Yields (payload id placed entry) t' bytes t''
        ∧ base ≤ placed.start.offset ∧ Holds block' (placed.start.offset - base) bytes
  := by
  induction entries generalizing cursor block s with
  | nil =>
    obtain ⟨heq, rfl⟩ := yields_pure.mp h
    cases heq
    exact ⟨fun hinner _ => hinner, nofun⟩
  | cons entry rest ih =>
    obtain ⟨placed, t, hplaced, h⟩ := yields_bind.mp h
    obtain ⟨bytes, t', hpayload, hrest⟩ := yields_bind.mp h
    obtain ⟨hstart, length, htakes, hnext⟩ := place_room hplaced
    have hlength := payload_length htakes hnext hpayload
    have hforward := writeThrough_forward hrest
    have hinside : placed.start.offset - base + bytes.length ≤ block.length := by
      omega
    have hkept := Bytes.length_overwrite block bytes _ hinside
    rw [← hkept] at hroom
    obtain ⟨hfront, hback⟩ := ih (by omega) hroom hrest
    -- the rest starts behind this entry, so both its payload and what was there before stay
    constructor
    · intro address inner hinner hbefore
      apply hfront (hinner.overwrite (by omega) (by omega)) (by omega)
    · intro k found hfound
      cases k with
      | zero =>
        cases hfound
        refine ⟨cursor, block, s, placed, t, bytes, t', yields_pure.mpr ⟨rfl, rfl⟩, hplaced,
          hpayload, by omega, ?_⟩
        apply hfront (holds_overwrite_self hinside)
        omega
      | succ k =>
        obtain ⟨middle, front, m, placed', m', bytes', m'', hto, hfoundAt⟩ := hback hfound
        refine ⟨middle, front, m, placed', m', bytes', m'', ?_, hfoundAt⟩
        rw [List.take_succ_cons]
        apply yields_bind.mpr
        refine ⟨placed, t, hplaced, ?_⟩
        apply yields_bind.mpr
        exact ⟨bytes, t', hpayload, hto⟩

end Step

/-- Entry number `k` of object `id` was placed in front of the build, and its payload was found in
it. -/
def Build.WritesEntry (build : Build) (config : Config) (id : ObjId) (k : Nat) (entry : DatEntry)
    (placed : Placed) (bytes : Bytes) : Prop :=
  ∃ origin cursor block before after,
    Yields (Step.writeTo config id k) origin (cursor, block) before
    ∧ Yields (Step.place config .write id cursor entry) before placed build
    ∧ Yields (Step.payload id placed entry) build bytes after

/-- The section that is written holds the payload of every entry. When the payload was found, the
object was as before but for its latest label. -/
theorem Step.writeDat_holds {config : Config} {id : ObjId} {before measured laid after : Build}
    {u₁ u₂ u₃ : Unit} (hid : id < laid.objects.length)
    (hmeasure : Yields (measureDat config id) before u₁ measured)
    (hvars : Yields (inObject id (placeVars id)) measured u₂ laid)
    (hwrite : Yields (writeDat config id) laid u₃ after) {k : Nat} {entry : DatEntry}
    (hentry : (laid.object id).dat[k]? = some entry) :
  ∃ (build : Build) (placed : Placed) (bytes : Bytes),
    build.WritesEntry config id k entry placed bytes
    ∧ (∃ latest, build.object id = { laid.object id with latestLabel := latest })
    ∧ (laid.object id).headerSize ≤ placed.start.offset
    ∧ Holds (after.object id).datBytes (placed.start.offset - (laid.object id).headerSize) bytes
  := by
  obtain ⟨last, s', hmeasured, hgrows, _, hroom⟩ := yields_measureDat hmeasure
  obtain ⟨hgrows', hbytes⟩ := yields_placeVars (yields_inObject.mp hvars)
  have hlater := hgrows.trans hgrows'
  have hgrown := grows_of_measureTo hmeasured hlater
  have hroom' : last.offset ≤ (laid.object id).headerSize + (laid.object id).datBytes.length := by
    rw [hbytes, (hgrows'.objects id).headerSize, hroom]
  -- the second walk ends where the first did, and that is the end of the section
  obtain ⟨cursor, block, t, hto, rfl⟩ := yields_writeDat hwrite
  obtain ⟨_, _, hagain, _⟩ := writeTo_follows hmeasured hlater hroom' hto
  rw [hgrown.dat] at hagain
  obtain ⟨rfl, rfl⟩ := hagain.unique hmeasured
  rw [yields_writeTo, List.take_length] at hto
  have hblank : (List.replicate (laid.object id).datBytes.length (0 : UInt8)).length
      = (laid.object id).datBytes.length := List.length_replicate ..
  rw [← hblank] at hroom'
  obtain ⟨_, hentries⟩ := writeThrough_holds (Nat.le_refl (laid.object id).headerSize) hroom' hto
  obtain ⟨middle, front, m, placed, m', bytes, m'', hfront, hplaced, hpayload, hbase, hholds⟩ :=
    hentries hentry
  rw [← yields_writeTo] at hfront
  rw [hblank] at hroom'
  obtain ⟨_, s, _, hmiddle, _⟩ := writeTo_follows hmeasured hlater hroom' hfront
  have hlength := (writeDat_keeping config id _ _ _ hwrite).length
  rw [Build.length_modifyObject] at hlength
  rw [Build.object_modifyObject_self _ (by rwa [hlength])]
  refine ⟨m', placed, bytes, ⟨laid, middle, front, m, m'', hfront, hplaced, hpayload⟩,
    ⟨(s.object id).latestLabel, ?_⟩, hbase, hholds⟩
  rw [(place_quiet _ _ _ _ _ _ _ _ hplaced).object, hmiddle]

end SpinHub
