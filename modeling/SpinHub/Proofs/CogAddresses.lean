import Mathlib
import SpinHub.Proofs.SerializedSections

/-!
# Cog addresses follow the origin

The cursor keeps the difference between the cog address and the offset, and ORG and RES change that
difference. A log of the directives says the same without a cursor: counted from the value of the
latest ORG, the cog address moves with the offset since that ORG and with what has been reserved
since, and behind ORGX it is zero. The offsets stay small however labels are aligned, so a cog
address always fits into a word.
-/

namespace SpinHub

/-! ### Rounding up many times

A label can be aligned to any number below 256, also to one that is no power of two, and then
rounding up twice may go further than rounding up once. -/

/-- What stands above the lowest `k` bits of a number, and how many of these are set. -/
def weight : Nat → Nat → Nat
  | 0, n => n
  | k + 1, n => weight k (n / 2) + n % 2

/-- A number that is larger by one weighs at most one more. -/
theorem weight_succ_le (k n : Nat) :
  weight k (n + 1) ≤ weight k n + 1
  := by
  induction k generalizing n with
  | zero => apply le_rfl
  | succ k ih =>
    rw [weight, weight]
    rcases Nat.mod_two_eq_zero_or_one n with heven | hodd
    · rw [show (n + 1) / 2 = n / 2 by omega]
      omega
    · rw [show (n + 1) / 2 = n / 2 + 1 by omega]
      have := ih (n / 2)
      omega

/-- Aligning with a mask aligns the half with half of the mask, and does not set the lowest bit. -/
theorem alignUp_div_two (n mask : Nat) :
  alignUp n (mask + 1) / 2 = alignUp ((n + mask % 2) / 2) (mask / 2 + 1)
    ∧ alignUp n (mask + 1) % 2 ≤ n % 2 * ((mask + 1) % 2)
  := by
  have hhalf : ((n + mask) &&& mask) / 2 = (n + mask) / 2 &&& mask / 2 := Nat.and_div_two
  have hbit : ((n + mask) &&& mask) % 2 = 1 ↔ (n + mask) % 2 = 1 ∧ mask % 2 = 1 :=
    Nat.and_mod_two_eq_one
  have hle : ((n + mask) &&& mask) ≤ n + mask := Nat.and_le_left
  have hhalves : (n + mask % 2) / 2 + mask / 2 = (n + mask) / 2 := by omega
  rw [alignUp, alignUp, Nat.add_sub_cancel, Nat.add_sub_cancel, hhalves, ← hhalf]
  generalize (n + mask) &&& mask = low at hbit hle ⊢
  rcases Nat.mod_two_eq_zero_or_one mask with hmask | hmask
  · rw [show (mask + 1) % 2 = 1 by omega]
    omega
  · rw [show (mask + 1) % 2 = 0 by omega]
    omega

/-- A carry out of the lowest bits takes one of them away. -/
theorem weight_alignUp_le {k a : Nat} (n : Nat) (h : a ≤ 2 ^ k) :
  weight k (alignUp n a) ≤ weight k n
  := by
  induction k generalizing n a with
  | zero =>
    have : a = 0 ∨ a = 1 := by omega
    rcases this with rfl | rfl <;> simp
  | succ k ih =>
    cases a with
    | zero => rw [alignUp_zero]
    | succ mask =>
      obtain ⟨hhalf, hbit⟩ := alignUp_div_two n mask
      have hsmall : mask / 2 + 1 ≤ 2 ^ k := by omega
      have hupper := ih ((n + mask % 2) / 2) hsmall
      rw [weight, weight, hhalf]
      rcases Nat.mod_two_eq_zero_or_one mask with hmask | hmask
      · rw [hmask, Nat.add_zero] at hupper ⊢
        rw [show (mask + 1) % 2 = 1 by omega] at hbit
        omega
      · rw [show (mask + 1) % 2 = 0 by omega] at hbit
        rw [hmask] at hupper ⊢
        rcases Nat.mod_two_eq_zero_or_one n with hn | hn
        · rw [show (n + 1) / 2 = n / 2 by omega] at hupper ⊢
          omega
        · rw [show (n + 1) / 2 = n / 2 + 1 by omega] at hupper ⊢
          have := weight_succ_le k (n / 2)
          omega

/-- A number is no more than its weight at the place of bit `k`. -/
theorem le_mul_weight (k n : Nat) :
  n ≤ 2 ^ k * weight k n
  := by
  induction k generalizing n with
  | zero => simp [weight]
  | succ k ih =>
    have hhalf := ih (n / 2)
    have hpos : 1 ≤ 2 ^ k := Nat.one_le_two_pow
    calc n = 2 * (n / 2) + n % 2 := (Nat.div_add_mod n 2).symm
      _ ≤ 2 * (2 ^ k * weight k (n / 2)) + 2 ^ (k + 1) * (n % 2) := by
        gcongr
        apply Nat.le_mul_of_pos_left _ (Nat.two_pow_pos _)
      _ = 2 ^ (k + 1) * weight (k + 1) n := by
        rw [weight]
        ring

/-- A number weighs no more than what stands above its lowest `k` bits, and one for each of them. -/
theorem weight_le (k n : Nat) :
  weight k n ≤ n / 2 ^ k + k
  := by
  induction k generalizing n with
  | zero => simp [weight]
  | succ k ih =>
    have hhalf := ih (n / 2)
    rw [Nat.div_div_eq_div_mul, ← pow_succ'] at hhalf
    rw [weight]
    omega

/-! ### Addresses fit into a word -/

namespace Cursor

/-- The offset and the cog address are far from the ends of a word. -/
structure InRange (cursor : Cursor) : Prop where
  offset : weight 8 cursor.offset ≤ 0x1fffffff / 2 ^ 8 + 8
  low : -cogLimit ≤ cursor.offset + cursor.shift
  high : cursor.shift ≤ cogLimit

/-- The start of a DAT section is in range if the header is. -/
theorem inRange_start {headerSize : Nat} (h : headerSize ≤ 0x1fffffff) :
  (start headerSize).InRange
  := by
  have hweight := weight_le 8 headerSize
  constructor
  · rw [start]
    dsimp only
    omega
  · simp [start, cogLimit]
  · simp only [start, cogLimit]
    omega

namespace InRange

variable {cursor next : Cursor} {pos : Pos}

/-- Only the offset and the shift matter. -/
theorem congr (h : cursor.InRange) (hoffset : next.offset = cursor.offset)
    (hshift : next.shift = cursor.shift) :
  next.InRange
  := by
  constructor
  · exact hoffset ▸ h.offset
  · rw [hoffset, hshift]
    exact h.low
  · exact hshift ▸ h.high

/-- A cursor in range may be aligned. -/
theorem align (h : cursor.InRange) {alignment : Nat} (hsmall : alignment ≤ 2 ^ 8) :
  (cursor.align alignment).InRange
  := by
  have hle := le_alignUp cursor.offset alignment
  refine ⟨(weight_alignUp_le _ hsmall).trans h.offset, ?_, h.high⟩
  have := h.low
  simp only [Cursor.align]
  omega

theorem alignLong (h : cursor.InRange) :
  cursor.alignLong.InRange
  := (h.align (by decide : 4 ≤ 2 ^ 8)).congr rfl rfl

/-- A cog address that is accepted is in range. -/
theorem setCog (h : cursor.InRange) {cog : Int} (hnext : cursor.setCog pos cog = .ok next) :
  next.InRange
  := by
  rw [Cursor.setCog] at hnext
  split_ifs at hnext with hcog
  cases hnext
  refine ⟨h.offset, ?_, ?_⟩ <;> dsimp only <;> omega

/-- A cursor that may advance stays in range, as the limit of the section is. -/
theorem advance (h : cursor.InRange) {bytes : Nat} {config : Config}
    (hnext : cursor.advance pos bytes config.datLimit = .ok next) :
  next.InRange
  := by
  rw [Cursor.advance] at hnext
  split_ifs at hnext with hbytes
  cases hnext
  have hlimit : config.datLimit ≤ 0x1fffffff := Nat.min_le_right _ _
  have hweight := weight_le 8 (cursor.offset + bytes)
  have := h.low
  refine ⟨?_, ?_, h.high⟩ <;> dsimp only <;> omega

/-- The cog address of a cursor in range fits in a word. -/
theorem cog_lt (h : cursor.InRange) :
  -2 ^ 31 ≤ cursor.cog ∧ cursor.cog < 2 ^ 31
  := by
  obtain ⟨hoffset, hlow, hhigh⟩ := h
  have hweight := le_mul_weight 8 cursor.offset
  rw [cogLimit] at hlow hhigh
  rw [cog]
  split_ifs <;> omega

end InRange

end Cursor

namespace Step

variable {config : Config} {id : ObjId}

/-- However an entry moves the cursor, it stays in range. -/
theorem place_inRange {pass : Pass} {cursor : Cursor} {entry : DatEntry} {placed : Placed}
    {s s' : Build} (h : Yields (place config pass id cursor entry) s placed s')
    (hcursor : cursor.InRange) :
  placed.next.InRange
  := by
  have hbyte (alignment : UInt8) : (cursor.align alignment.toNat).InRange :=
    hcursor.align alignment.toNat_lt.le
  cases places_of_place h with
  | label name alignment hstart =>
    subst hstart
    dsimp only
    split_ifs
    · apply hcursor
    · exact (hbyte alignment).congr rfl rfl
  | org _ hnext => exact ((hcursor.align (by decide)).setCog hnext).congr rfl rfl
  | orgx _ => exact hcursor.congr rfl rfl
  | instruction hnext => apply hcursor.alignLong.advance hnext
  | res _ hnext => exact (hcursor.alignLong.setCog hnext).congr rfl rfl
  | fit _ _ => apply hcursor
  | file hnext =>
    have hstart : Cursor.InRange { cursor with alignment := 1 } := hcursor.congr rfl rfl
    apply hstart.advance hnext
  | data _ _ _ hnext => exact ((hbyte _).advance hnext).congr rfl rfl

end Step

/-! ### The log of directives -/

/-- What an entry says about cog addresses. -/
inductive Directive where
  /-- Counting starts again at an offset, with a number of longs. -/
  | org (longs : Int) (offset : Nat)
  /-- Counting stops. -/
  | orgx
  /-- Longs are left out. -/
  | res (longs : Int)
deriving DecidableEq

namespace Directive

def isOrg : Directive → Bool
  | .org _ _ => true
  | _ => false

/-- The longs that a directive leaves out. -/
def longs : Directive → Int
  | .res longs => longs
  | _ => 0

/-- Of a log with the latest directive first, those since the latest ORG. -/
def sinceOrg (log : List Directive) : List Directive := log.takeWhile (!·.isOrg)

/-- The value of the latest ORG. -/
def latestOrigin : List Directive → Int
  | [] => 0
  | .org longs _ :: _ => longs
  | _ :: log => latestOrigin log

/-- The offset of the latest ORG, or of the end of the header. -/
def latestOffset (headerSize : Nat) : List Directive → Nat
  | [] => headerSize
  | .org _ offset :: _ => offset
  | _ :: log => latestOffset headerSize log

/-- The longs that have been left out since the latest ORG. -/
def reservedLongs (log : List Directive) : Int := ((sinceOrg log).map longs).sum

/-- A log of directives says where a cursor stands. -/
structure Locates (headerSize : Nat) (log : List Directive) (cursor : Cursor) : Prop where
  shift : cursor.shift
    = 4 * latestOrigin log - latestOffset headerSize log + 4 * reservedLongs log
  orgx : cursor.orgx = true ↔ .orgx ∈ sinceOrg log
  aligned : 4 ∣ latestOffset headerSize log

namespace Locates

variable {headerSize : Nat} {log : List Directive} {cursor next : Cursor}

/-- At the start nothing has been logged. -/
theorem start (h : 4 ∣ headerSize) :
  Locates headerSize [] (.start headerSize)
  := by
  refine ⟨?_, ?_, h⟩
  · simp [Cursor.start, latestOrigin, latestOffset, reservedLongs, sinceOrg]
  · simp [Cursor.start, sinceOrg]

/-- Only the shift and whether cog addresses are counted matter. -/
theorem congr (h : Locates headerSize log cursor) (hshift : next.shift = cursor.shift)
    (horgx : next.orgx = cursor.orgx) :
  Locates headerSize log next
  := by
  constructor
  · apply hshift.trans h.shift
  · rw [horgx]
    apply h.orgx
  · apply h.aligned

/-- Aligning moves offset and cog address alike. -/
theorem align (h : Locates headerSize log cursor) (alignment : Nat) :
  Locates headerSize log (cursor.align alignment)
  := h.congr rfl rfl

theorem alignLong (h : Locates headerSize log cursor) :
  Locates headerSize log cursor.alignLong
  := h.congr rfl rfl

/-- Bytes move offset and cog address alike. -/
theorem advance (h : Locates headerSize log cursor) {pos : Pos} {bytes limit : Nat}
    (hnext : cursor.advance pos bytes limit = .ok next) :
  Locates headerSize log next
  := by
  rw [Cursor.advance] at hnext
  split_ifs at hnext
  cases hnext
  exact h.congr rfl rfl

/-- An origin starts the count anew, where the cursor is aligned. -/
theorem org {pos : Pos} {longs : Int}
    (hnext : (cursor.align 4).setCog pos (longs * 4) = .ok next) :
  Locates headerSize (.org longs (cursor.align 4).offset :: log) { next with orgx := false }
  := by
  rw [Cursor.setCog_eq hnext]
  constructor
  · simp [latestOrigin, latestOffset, reservedLongs, sinceOrg, isOrg, Int.mul_comm]
  · simp [sinceOrg, isOrg]
  · exact (alignUp_isLeast cursor.offset 2).1.2

/-- Behind ORGX all cog addresses are zero. -/
theorem orgx_cons (h : Locates headerSize log cursor) :
  Locates headerSize (.orgx :: log) { cursor with orgx := true }
  := by
  refine ⟨?_, ?_, h.aligned⟩
  · simp [h.shift, latestOrigin, latestOffset, reservedLongs, sinceOrg, isOrg, longs]
  · simp [sinceOrg, isOrg]

/-- A reservation moves the cog address alone. -/
theorem res (h : Locates headerSize log cursor) {pos : Pos} {longs : Int}
    (hnext : cursor.setCog pos (cursor.offset + cursor.shift + longs * 4) = .ok next) :
  Locates headerSize (.res longs :: log) next
  := by
  rw [Cursor.setCog_eq hnext]
  refine ⟨?_, ?_, h.aligned⟩
  · simp only [h.shift, latestOrigin, latestOffset, reservedLongs, sinceOrg, isOrg,
      Directive.longs, Bool.not_false, List.takeWhile_cons, if_true, List.map_cons, List.sum_cons]
    omega
  · simp [h.orgx, sinceOrg, isOrg]

end Locates

end Directive

namespace Step

/-- The directive of an entry at a cursor, with its operand evaluated where the entry is placed. -/
def directive? (id : ObjId) (cursor : Cursor) : DatEntry → Step (Option Directive)
  | .org _ origin => do
    let start := cursor.align 4
    let longs ← operandOr id start 0 origin
    return some (.org longs start.offset)
  | .orgx _ => return some .orgx
  | .res _ count => do
    let longs ← operandOr id cursor.alignLong 1 count
    return some (.res longs)
  | .label _ _ | .instruction _ | .fit _ _ | .file _ _ | .data _ => return none

/-- The measuring pass from a cursor on with a log of its directives, the latest first. -/
def logFrom (config : Config) (id : ObjId) :
    Cursor → List Directive → List DatEntry → Step (List Directive)
  | _, log, [] => return log
  | cursor, log, entry :: rest => do
    let directive ← directive? id cursor entry
    let next ← measureEntry config id cursor entry
    logFrom config id next (directive.toList ++ log) rest

/-- The directives among the first `k` entries of an object, as the measuring pass meets them. -/
def directivesTo (config : Config) (id : ObjId) (k : Nat) : Step (List Directive) := do
  clearLatest id
  let object ← object id
  logFrom config id (.start object.headerSize) [] (object.dat.take k)

end Step

open Directive

namespace Step

variable {config : Config} {id : ObjId} {cursor : Cursor} {headerSize : Nat} {log : List Directive}

/-- The step of the argument: an entry moves the cursor as its directive says. -/
theorem place_locates {entry : DatEntry} {placed : Placed} {s s' : Build}
    (h : Yields (place config .measure id cursor entry) s placed s')
    (hlocates : Locates headerSize log cursor) :
  ∃ directive m, Yields (directive? id cursor entry) s directive m
    ∧ Yields (place config .measure id cursor entry) m placed s'
    ∧ Locates headerSize (directive.toList ++ log) placed.next
  := by
  -- what is evaluated for the log is evaluated to the same for the entry
  obtain ⟨hobjects, _, hreplay⟩ := place_replays _ _ _ _ _ _ _ h
  have hagain : Yields (place config .write id cursor entry) s' placed s' := by
    apply hreplay
    · rw [hobjects]
      apply ObjectsGrow.refl
    · apply Memo.Grows.refl
  have silent (hnone : directive? id cursor entry = pure none)
      (hnext : Locates headerSize log placed.next) :
      ∃ directive m, Yields (directive? id cursor entry) s directive m
        ∧ Yields (place config .measure id cursor entry) m placed s'
        ∧ Locates headerSize (directive.toList ++ log) placed.next := by
    refine ⟨none, s, ?_, h, hnext⟩
    rw [hnone]
    apply yields_pure.mpr ⟨rfl, rfl⟩
  cases places_of_place h with
  | label name alignment hstart =>
    apply silent rfl
    subst hstart
    dsimp only
    split_ifs
    · apply hlocates
    · exact hlocates.congr rfl rfl
  | org horigin hnext =>
    refine ⟨some (.org _ _), s', ?_, hagain, (Locates.org hnext).congr rfl rfl⟩
    apply yields_bind.mpr
    exact ⟨_, s', horigin, yields_pure.mpr ⟨rfl, rfl⟩⟩
  | orgx _ =>
    refine ⟨some .orgx, s, ?_, h, hlocates.orgx_cons.congr rfl rfl⟩
    apply yields_pure.mpr ⟨rfl, rfl⟩
  | instruction hnext => apply silent rfl (hlocates.alignLong.advance hnext)
  | res hlongs hnext =>
    refine ⟨some (.res _), s', ?_, hagain, (hlocates.alignLong.res hnext).congr rfl rfl⟩
    apply yields_bind.mpr
    exact ⟨_, s', hlongs, yields_pure.mpr ⟨rfl, rfl⟩⟩
  | fit _ _ => apply silent rfl hlocates
  | file hnext =>
    have hstart : Locates headerSize log { cursor with alignment := 1 } := hlocates.congr rfl rfl
    apply silent rfl (hstart.advance hnext)
  | data _ _ _ hnext => exact silent rfl (((hlocates.align _).advance hnext).congr rfl rfl)

/-- An entry that is measured logs its directive, and the log says where the cursor is behind it. -/
theorem measureEntry_locates {next : Cursor} {entry : DatEntry} {s s' : Build}
    (h : Yields (measureEntry config id cursor entry) s next s')
    (hlocates : Locates headerSize log cursor) :
  ∃ directive m, Yields (directive? id cursor entry) s directive m
    ∧ Yields (measureEntry config id cursor entry) m next s'
    ∧ Locates headerSize (directive.toList ++ log) next
  := by
  obtain ⟨placed, middle, hplaced, hlabel⟩ := yields_bind.mp h
  obtain ⟨directive, m, hdirective, hplaced, hnext⟩ := place_locates hplaced hlocates
  have hend : next = placed.next := by
    cases entry with
    | label name alignment =>
      obtain ⟨_, _, _, hpure⟩ := yields_bind.mp hlabel
      exact (yields_pure.mp hpure).1
    | _ => exact (yields_pure.mp hlabel).1
  refine ⟨directive, m, hdirective, ?_, hend ▸ hnext⟩
  apply yields_bind.mpr
  exact ⟨placed, middle, hplaced, hlabel⟩

/-- A pass over entries can be logged, and its cursor stands where the log says. -/
theorem yields_logFrom {next : Cursor} {entries : List DatEntry} {s s' : Build}
    (h : Yields (measureFrom config id cursor entries) s next s')
    (hlocates : Locates headerSize log cursor) (hrange : cursor.InRange) :
  ∃ log', Yields (logFrom config id cursor log entries) s log' s'
    ∧ Locates headerSize log' next ∧ next.InRange
  := by
  induction entries generalizing cursor log s with
  | nil =>
    obtain ⟨rfl, rfl⟩ := yields_pure.mp h
    exact ⟨log, yields_pure.mpr ⟨rfl, rfl⟩, hlocates, hrange⟩
  | cons entry rest ih =>
    rw [measureFrom_cons] at h
    obtain ⟨middle, m, hentry, hrest⟩ := yields_bind.mp h
    obtain ⟨placed, _, hplaced, hend, _⟩ := yields_measureEntry hentry
    obtain ⟨directive, m', hdirective, hagain, hlocates'⟩ := measureEntry_locates hentry hlocates
    obtain ⟨log', hlog, hlast⟩ := ih hrest hlocates' (hend ▸ place_inRange hplaced hrange)
    refine ⟨log', ?_, hlast⟩
    rw [logFrom]
    apply yields_bind.mpr
    refine ⟨directive, m', hdirective, ?_⟩
    apply yields_bind.mpr
    exact ⟨middle, m, hagain, hlog⟩

end Step

/-! ### The value of a label -/

/-- A place in the DAT section of an object that has grown since. -/
structure Site.InDat (site : Site) (object : Object) : Prop where
  scope : site.scope = []
  here : site.here.isSome
  object : object.Grows site.object

/-- A label is found in its object once it is declared. -/
theorem Site.InDat.lookup {site : Site} {object : Object} {name : String} {label : Label}
    (h : site.InDat object) (hlabel : object.labelUnder? (site.object.key name) = some label) :
  SpinHub.lookup? site.objects site.obj site.scope name = some (.label label)
  := by
  have hfound := h.object.labelUnder hlabel
  rw [Object.labelUnder?] at hfound
  split at hfound
  case h_1 index hfind =>
    have hmeaning : site.object.meaning? site.obj (.label index) = some (.label label) := by
      rw [Object.meaning?, hfound, Option.map_some]
    rw [h.scope, SpinHub.lookup?]
    dsimp only [List.lookup]
    rw [← Site.object, hfind]
    exact hmeaning
  case h_2 => cases hfound

/-- In a DAT section the name of a label stands for its cog address in longs, which must be
whole. -/
theorem Site.InDat.run_eval {site : Site} {object : Object} {name : String} {label : Label}
    (h : site.InDat object) (hlabel : object.labelUnder? (site.object.key name) = some label)
    (pos : Pos) (memo : Memo) :
  (site.eval (.name pos name)).run.run memo
    = (if label.cog % 4 = 0 then .ok (.int (BitVec.ofInt 32 (label.cog.tdiv 4)))
      else .error { cause := .misalignedAddress name, pos }, memo)
  := by
  obtain ⟨address, hhere⟩ := Option.isSome_iff_exists.mp h.here
  rw [Site.eval, Site.evalWith, Site.nameValue, Site.lookup, Site.lookupIn, h.lookup hlabel, hhere]
  rw [pure_bind]
  dsimp only
  by_cases hwhole : label.cog % 4 = 0
  · rw [if_neg (not_not.mpr hwhole), if_pos hwhole]
    rfl
  · rw [if_pos hwhole, if_neg hwhole]
    rfl

/-- The name of a label fails to be a value exactly if its cog address is inside a long. -/
theorem Site.InDat.fails_eval_iff {site : Site} {object : Object} {name : String} {label : Label}
    (h : site.InDat object) (hlabel : object.labelUnder? (site.object.key name) = some label)
    (pos : Pos) (memo : Memo) :
  Fails (site.eval (.name pos name)) memo { cause := .misalignedAddress name, pos } memo
    ↔ label.cog % 4 ≠ 0
  := by
  rw [Fails, h.run_eval hlabel, Prod.mk.injEq]
  split_ifs with hwhole <;> simp [hwhole]

/-- The name of a label has the number of its long as value. -/
theorem Site.InDat.yields_eval {site : Site} {object : Object} {name : String} {label : Label}
    (h : site.InDat object) (hlabel : object.labelUnder? (site.object.key name) = some label)
    (hwhole : label.cog % 4 = 0) (pos : Pos) (memo : Memo) :
  Yields (site.eval (.name pos name)) memo (.int (BitVec.ofInt 32 (label.cog.tdiv 4))) memo
  := by
  rw [Yields, h.run_eval hlabel, if_pos hwhole]

/-- A cog address that fits into a word is not cut off. -/
theorem toInt_ofInt_tdiv {cog : Int} (hlow : -2 ^ 31 ≤ cog) (hhigh : cog < 2 ^ 31)
    (hwhole : cog % 4 = 0) :
  (BitVec.ofInt 32 (cog.tdiv 4)).toInt = cog / 4
  := by
  rw [Int.tdiv_eq_ediv_of_dvd (Int.dvd_of_emod_eq_zero hwhole), BitVec.toInt_ofInt]
  apply Int.bmod_eq_of_le <;> omega

namespace Directive.Locates

variable {headerSize : Nat} {log : List Directive} {cursor : Cursor}

/-- Behind ORGX the cog address is zero. -/
theorem cog_of_orgx (h : Locates headerSize log cursor) (horgx : .orgx ∈ sinceOrg log) :
  cursor.cog = 0
  := by
  rw [Cursor.cog, if_pos (h.orgx.mpr horgx)]

/-- The cog address counts from the latest origin, in bytes, and the longs left out since. -/
theorem cog_eq (h : Locates headerSize log cursor) (horgx : .orgx ∉ sinceOrg log) :
  cursor.cog = 4 * latestOrigin log + (cursor.offset - latestOffset headerSize log)
    + 4 * reservedLongs log
  := by
  rw [Cursor.cog, if_neg (mt h.orgx.mp horgx), h.shift]
  omega

/-- Cog address and offset stand at the same byte of a long. -/
theorem cog_mod (h : Locates headerSize log cursor) (horgx : .orgx ∉ sinceOrg log) :
  cursor.cog % 4 = cursor.offset % 4
  := by
  have := h.aligned
  rw [h.cog_eq horgx]
  omega

/-- The long of a cog address counts from the latest origin, with the longs left out since. -/
theorem cog_div (h : Locates headerSize log cursor) (horgx : .orgx ∉ sinceOrg log) :
  cursor.cog / 4 = latestOrigin log + (cursor.offset - latestOffset headerSize log) / 4
    + reservedLongs log
  := by
  rw [h.cog_eq horgx]
  omega

/-- What the name of a label stands for that was declared with a cursor. -/
theorem eval_name (h : Locates headerSize log cursor) (hrange : cursor.InRange)
    (horgx : .orgx ∉ sinceOrg log) {site : Site} {object : Object} {name : Ident}
    {spelling : String} (hsite : site.InDat object)
    (hlabel : object.labelUnder? (site.object.key spelling) = some (cursor.label name))
    (pos : Pos) (memo : Memo) :
  (Fails (site.eval (.name pos spelling)) memo { cause := .misalignedAddress spelling, pos } memo
      ↔ ¬ 4 ∣ cursor.offset)
    ∧ (4 ∣ cursor.offset → ∃ word, Yields (site.eval (.name pos spelling)) memo (.int word) memo
      ∧ word.toInt = latestOrigin log + (cursor.offset - latestOffset headerSize log) / 4
        + reservedLongs log)
  := by
  have hwhole : cursor.cog % 4 = 0 ↔ 4 ∣ cursor.offset := by
    rw [h.cog_mod horgx]
    omega
  constructor
  · apply (hsite.fails_eval_iff hlabel pos memo).trans
    apply not_congr hwhole
  · intro hdvd
    obtain ⟨hlow, hhigh⟩ := hrange.cog_lt
    refine ⟨_, hsite.yields_eval hlabel (hwhole.mpr hdvd) pos memo, ?_⟩
    apply (toInt_ofInt_tdiv hlow hhigh (hwhole.mpr hdvd)).trans
    apply h.cog_div horgx

end Directive.Locates

/-- The header of an object whose slots are given out is a small number of longs. -/
theorem Object.Slotted.header_longs {object : Object} (h : object.Slotted) :
  4 ∣ object.headerSize ∧ object.headerSize ≤ 2040
  := by
  have := h.fewSubs
  have := h.fewMethods
  rw [h.headerSize]
  omega

namespace Step

variable {config : Config} {id : ObjId}

theorem yields_directivesTo {k : Nat} {log : List Directive} {b s : Build} :
  Yields (directivesTo config id k) b log s
    ↔ Yields (logFrom config id (.start (b.object id).headerSize) [] ((b.object id).dat.take k))
        (b.clearLatest id) log s
  := by
  apply yields_modify_bind.trans
  apply yields_object_bind.trans
  rw [← Build.clearLatest, Build.object_clearLatest]

/-- A label is declared with the cursor behind its entry. -/
theorem labelUnder_of_measureEntry {cursor next : Cursor} {name : Ident} {alignment : UInt8}
    {s s' : Build} (h : Yields (measureEntry config id cursor (.label name alignment)) s next s')
    (hid : id < s.objects.length) :
  (s'.object id).labelUnder? ((s.object id).key name.name) = some (next.label name)
  := by
  obtain ⟨placed, m, hplaced, rfl, hlabel⟩ := yields_measureEntry h
  rcases hlabel with ⟨_, _, u, hentry, hdeclare⟩ | ⟨hother, _⟩
  · cases hentry
    obtain ⟨hstart, rfl⟩ := yields_pure.mp hplaced
    obtain ⟨object, hadd, rfl⟩ := yields_declareLabel hdeclare
    have hlabel := Object.labelUnder_declare hadd
    rw [Build.object_modifyObject_self _ hid]
    apply (Object.grows_passLabel object name.name).labelUnder
    rw [hstart] at hlabel ⊢
    exact hlabel
  · cases hother name alignment rfl

/-- The measuring pass, cut at an entry. -/
theorem measureFrom_at {cursor last : Cursor} {entries : List DatEntry} {k : Nat} {entry : DatEntry}
    {s s' : Build} (h : Yields (measureFrom config id cursor entries) s last s')
    (hentry : entries[k]? = some entry) :
  ∃ middle m next m', Yields (measureFrom config id cursor (entries.take k)) s middle m
    ∧ Yields (measureEntry config id middle entry) m next m'
    ∧ Yields (measureFrom config id cursor (entries.take (k + 1))) s next m'
    ∧ m'.GrowsAt id s'
  := by
  obtain ⟨hk, rfl⟩ := List.getElem?_eq_some_iff.mp hentry
  rw [← List.take_append_drop k entries, measureFrom_append, List.drop_eq_getElem_cons hk] at h
  obtain ⟨middle, m, hfront, hback⟩ := yields_bind.mp h
  rw [measureFrom_cons] at hback
  obtain ⟨next, m', hone, hrest⟩ := yields_bind.mp hback
  refine ⟨middle, m, next, m', hfront, hone, ?_, (measureFrom_growsAt hrest).1⟩
  rw [List.take_add_one, hentry, measureFrom_append]
  apply yields_bind.mpr
  use middle, m, hfront
  rw [Option.toList_some, measureFrom_cons]
  apply yields_bind.mpr
  exact ⟨next, m', hone, yields_pure.mpr ⟨rfl, rfl⟩⟩

/-- Every label has the cog address that the directives before it say. Behind ORGX that is zero.
Otherwise it counts from the latest ORG, moves with the offset, and leaves out what is reserved; the
name of the label then stands for this address in longs, unless the offset is not a multiple of
four. -/
theorem cog_follows_origin {before measured : Build} (hslotted : (before.object id).Slotted)
    (hmeasure : Yields (measureDat config id) before () measured) :
  let headerSize := (before.object id).headerSize
  ∀ k name alignment, (before.object id).dat[k]? = some (.label name alignment) →
    ∃ log s cursor behind label, Yields (directivesTo config id k) before log s
      ∧ Yields (measureTo config id (k + 1)) before cursor behind
      ∧ (behind.object id).Grows (measured.object id)
      ∧ (measured.object id).labelUnder? ((s.object id).key name.name) = some label
      ∧ label.name = name
      ∧ (.orgx ∈ sinceOrg log → label.cog = 0)
      ∧ (.orgx ∉ sinceOrg log →
        label.cog = 4 * latestOrigin log + (label.offset - latestOffset headerSize log)
            + 4 * reservedLongs log
          ∧ label.cog % 4 = label.offset % 4
          ∧ ∀ (site : Site) memo pos spelling, site.InDat (behind.object id) →
            site.object.key spelling = (s.object id).key name.name →
            (Fails (site.eval (.name pos spelling)) memo
                { cause := .misalignedAddress spelling, pos } memo ↔ ¬ 4 ∣ label.offset)
              ∧ (4 ∣ label.offset → ∃ word, Yields (site.eval (.name pos spelling)) memo
                  (.int word) memo
                ∧ word.toInt = latestOrigin log
                  + (label.offset - latestOffset headerSize log) / 4 + reservedLongs log))
  := by
  intro headerSize k name alignment hentry
  have hid : id < before.objects.length := by
    by_contra hnone
    rw [Build.object_of_le (Nat.le_of_not_lt hnone)] at hentry
    cases hentry
  obtain ⟨last, s', hto, hlater, _⟩ := yields_measureDat hmeasure
  rw [yields_measureTo, List.take_length] at hto
  obtain ⟨middle, s, cursor, behind, hfront, hone, hfirst, hgrows⟩ := measureFrom_at hto hentry
  obtain ⟨hlongs, hsmall⟩ := hslotted.header_longs
  obtain ⟨log, hlog, hlocates, hrange⟩ := yields_logFrom hfront (Locates.start hlongs)
    (Cursor.inRange_start (by omega))
  -- a label is no directive
  obtain ⟨_, _, hdirective, _, hnext⟩ := measureEntry_locates hone hlocates
  obtain ⟨rfl, _⟩ := yields_pure.mp hdirective
  replace hlocates : Locates headerSize log cursor := hnext
  replace hrange : cursor.InRange := by
    obtain ⟨placed, _, hplaced, rfl, _⟩ := yields_measureEntry hone
    apply place_inRange hplaced hrange
  have hlabel := labelUnder_of_measureEntry hone (by
    rwa [(measureFrom_growsAt hfront).1.length, Build.clearLatest, Build.length_modifyObject])
  have hobject := (hgrows.trans hlater).objects id
  refine ⟨log, s, cursor, behind, cursor.label name, yields_directivesTo.mpr hlog,
    yields_measureTo.mpr hfirst, hobject, hobject.labelUnder hlabel, rfl, hlocates.cog_of_orgx, ?_⟩
  intro horgx
  refine ⟨hlocates.cog_eq horgx, hlocates.cog_mod horgx, ?_⟩
  intro site memo pos spelling hsite hkey
  rw [← hkey] at hlabel
  apply hlocates.eval_name hrange horgx hsite hlabel

/-- An object with a label at an odd offset, a label behind ORGX, and a label behind ORG and a
reservation. -/
def originBuild : Build :=
  { order := [0]
    objects := [
      { file := "origin", headerSize := 4
        dat := [
          .data { pos := {}, alignment := 1, size := 1, value := .int {} 7 },
          .label { name := "odd" } 0,
          .orgx {},
          .res {} (some (.int {} 2)),
          .label { name := "hub" } 4,
          .org {} (some (.int {} 16)),
          .data { pos := {}, alignment := 4, size := 4, value := .int {} 0
                  count := some (.int {} 2) },
          .res {} (some (.int {} 3)),
          .label { name := "after" } 4] }] }

/-- The label `after` counts 16 longs of ORG, two of data and three that are reserved, but not those
that were reserved before ORG. The address of `odd` is not whole. -/
theorem cog_follows_origin_after :
  (originBuild.object 0).Slotted
    ∧ ∃ measured, Yields (measureDat {} 0) originBuild () measured
      ∧ (∃ s label word,
        Yields (directivesTo {} 0 8) originBuild [.res 3, .org 16 8, .res 2, .orgx] s
        ∧ (measured.object 0).labelUnder? "AFTER" = some label ∧ label.cog = 84
        ∧ Yields (Site.eval { measured.site 0 with here := some 0 } (.name {} "after"))
          measured.memo (.int word) measured.memo
        ∧ word.toInt = 21)
      ∧ Fails (Site.eval { measured.site 0 with here := some 0 } (.name {} "odd")) measured.memo
        { cause := .misalignedAddress "odd", pos := {} } measured.memo
  := by
  have hslotted : (originBuild.object 0).Slotted :=
    ⟨rfl, by simp [originBuild, Build.object, objectAt], rfl, rfl, by decide, by decide⟩
  have hresult : ((measureDat {} 0).run.run originBuild).1 = .ok () := by decide +kernel
  have hlogAfter : ((directivesTo {} 0 8).run.run originBuild).1
      = .ok [.res 3, .org 16 8, .res 2, .orgx] := by decide +kernel
  have hlogOdd : ((directivesTo {} 0 1).run.run originBuild).1 = .ok [] := by decide +kernel
  have hoffset : ((((measureDat {} 0).run.run originBuild).2.object 0).labelUnder? "AFTER").map
      (·.offset) = some 16 := by decide +kernel
  have hodd : ((((measureDat {} 0).run.run originBuild).2.object 0).labelUnder? "ODD").map
      (·.offset) = some 5 := by decide +kernel
  have hkeys (object : Object) : object.key "after" = "AFTER" ∧ object.key "odd" = "ODD" := by
    rw [Object.key, Object.key, if_neg (by decide), if_neg (by decide)]
    decide +kernel
  have hmeasure := Yields.of_result hresult
  generalize ((measureDat {} 0).run.run originBuild).2 = measured at *
  refine ⟨hslotted, measured, hmeasure, ?_, ?_⟩
  · obtain ⟨log, s, cursor, behind, label, hlog, _, hgrows, hlabel, _, _, hcounted⟩ :=
      cog_follows_origin hslotted hmeasure 8 _ _ rfl
    obtain ⟨rfl, rfl⟩ := (Yields.of_result hlogAfter).unique hlog
    rw [(hkeys _).1] at hlabel
    rw [hlabel, Option.map_some, Option.some.injEq] at hoffset
    obtain ⟨hcog, _, hvalue⟩ := hcounted (by decide)
    obtain ⟨word, hword, hlongs⟩ := (hvalue { measured.site 0 with here := some 0 } measured.memo
      {} "after" ⟨rfl, rfl, hgrows⟩ (by rw [(hkeys _).1, (hkeys _).1])).2 (by omega)
    refine ⟨_, label, word, hlog, hlabel, ?_, hword, ?_⟩
    · rw [hcog, hoffset]
      decide
    · rw [hlongs, hoffset]
      decide
  · obtain ⟨log, s, cursor, behind, label, hlog, _, hgrows, hlabel, _, _, hcounted⟩ :=
      cog_follows_origin hslotted hmeasure 1 _ _ rfl
    obtain ⟨rfl, rfl⟩ := (Yields.of_result hlogOdd).unique hlog
    rw [(hkeys _).2] at hlabel
    rw [hlabel, Option.map_some, Option.some.injEq] at hodd
    obtain ⟨_, _, hvalue⟩ := hcounted (by decide)
    apply (hvalue { measured.site 0 with here := some 0 } measured.memo {} "odd"
      ⟨rfl, rfl, hgrows⟩ (by rw [(hkeys _).2, (hkeys _).2])).1.mpr
    omega

end Step

end SpinHub
