import Mathlib
import SpinHub.Proofs.JumpReach
import SpinHub.Proofs.SettlingRounds

/-!
# Settling finds the least widths

Widths for the jumps of a stream are consistent if every jump that is given two bytes is near
enough to its target for the short form. The bytes between a jump and its target only grow with
the widths, so a round of settling that starts at or below consistent widths stays there. Settling
starts with the short form everywhere and ends with consistent widths, so it ends with the least.
-/

namespace SpinHub

namespace Stream

/-! ### Streams that have not been settled -/

/-- The streams that the operations on streams build before any settling. -/
inductive Fresh : Stream → Prop where
  | empty : Fresh {}
  | code {stream : Stream} (bytes : Bytes) : Fresh stream → Fresh (stream.code bytes)
  | push {stream : Stream} (v : Word) : Fresh stream → Fresh (stream.push v)
  | newTarget {stream : Stream} : Fresh stream → Fresh stream.newTarget.2
  | place {stream : Stream} (target : Target) (state : TargetState) :
      stream.targets[target]? = some state → state.placed = false → Fresh stream →
        Fresh (stream.place target)
  | jump {stream : Stream} (opcode : UInt8) (target : Target) :
      target < stream.targets.length → Fresh stream → Fresh (stream.jump opcode target)
  | offset {stream : Stream} (target : Target) :
      target < stream.targets.length → Fresh stream → Fresh (stream.offset target)
  | stringOffset {stream : Stream} (target : Target) :
      target < stream.targets.length → Fresh stream → Fresh (stream.stringOffset target)

theorem Fresh.built {stream : Stream} (fresh : Fresh stream) :
  Built stream
  := by
  induction fresh with
  | empty => exact .empty
  | code bytes _ ih => exact .code bytes ih
  | push v _ ih => exact .push v ih
  | newTarget _ ih => exact .newTarget ih
  | place target state hstate hfree _ ih => exact .place target state hstate hfree ih
  | jump opcode target htarget _ ih => exact .jump opcode target htarget ih
  | offset target htarget _ ih => exact .offset target htarget ih
  | stringOffset target htarget _ ih => exact .stringOffset target htarget ih

/-- A record has the width it was added with. -/
theorem Fresh.firstWidth {stream : Stream} (fresh : Fresh stream) {r : Record}
    (hr : .record r ∈ stream.chunks) :
  r.bytes.length = r.kind.firstWidth
  := by
  have added {stream : Stream} {kind : RecordKind} {target : Target} {bytes : Bytes}
      (hbytes : bytes.length = kind.firstWidth)
      (ih : .record r ∈ stream.chunks → r.bytes.length = r.kind.firstWidth)
      (hr : .record r ∈ (stream.addRecord kind target bytes).chunks) :
      r.bytes.length = r.kind.firstWidth := by
    rcases List.mem_append.mp hr with hold | hnew
    · apply ih hold
    · cases List.mem_singleton.mp hnew
      exact hbytes
  induction fresh with
  | empty => cases hr
  | code bytes _ ih => apply ih ((mem_appendCode (by simp) _ _).mp hr)
  | push v _ ih => apply ih ((mem_appendCode (by simp) _ _).mp hr)
  | newTarget _ ih => apply ih hr
  | place target state _ _ _ ih =>
    rcases List.mem_append.mp hr with hold | hnew
    · apply ih hold
    · cases List.mem_singleton.mp hnew
  | jump opcode target _ _ ih => apply added rfl ih hr
  | offset target _ _ ih => apply added rfl ih hr
  | stringOffset target _ _ ih => apply added rfl ih hr

/-! ### Widths for the jumps of a stream -/

/-- Place `i` of a stream holds a jump to a target. -/
def JumpsAt (stream : Stream) (i : Nat) (target : Target) : Prop :=
  ∃ r opcode, stream.chunks[i]? = some (.record r) ∧ r.kind = .jump opcode ∧ r.target = target

end Stream

/-- The bytes of a chunk if a jump has the given width. -/
def Chunk.widthWith (width : Nat) : Chunk → Nat
  | .record { kind := .jump _, .. } => width
  | chunk => chunk.bytes.length

namespace Stream

/-- The bytes of the chunk at a place if jumps have the given widths. -/
def widthWith (stream : Stream) (widths : Nat → Nat) (i : Nat) : Nat :=
  (stream.chunks[i]?.map (Chunk.widthWith (widths i))).getD 0

/-- The bytes in front of a place if jumps have the given widths. -/
def lengthWith (stream : Stream) (widths : Nat → Nat) (i : Nat) : Nat :=
  ∑ k ∈ Finset.range i, stream.widthWith widths k

/-- Every jump is given two or three bytes, and two only if the bytes between the jump and its
target can be counted by the short form. -/
structure Consistent (stream : Stream) (widths : Nat → Nat) : Prop where
  two_or_three : ∀ {i target}, stream.JumpsAt i target → widths i = 2 ∨ widths i = 3
  near : ∀ {i j target}, stream.JumpsAt i target → widths i = 2 →
    stream.chunks[j]? = some (.mark target) →
    -64 ≤ (stream.lengthWith widths j : Int) - stream.lengthWith widths (i + 1)
      ∧ (stream.lengthWith widths j : Int) - stream.lengthWith widths (i + 1) ≤ 62

/-- The bytes that the chunks of a stream have at present. -/
def widths (stream : Stream) (i : Nat) : Nat := (stream.chunks[i]?.map (·.bytes.length)).getD 0

/-- Only the widths of jumps count. -/
theorem widthWith_mono {stream : Stream} {narrow wide : Nat → Nat} {k : Nat}
    (h : ∀ target, stream.JumpsAt k target → narrow k ≤ wide k) :
  stream.widthWith narrow k ≤ stream.widthWith wide k
  := by
  unfold widthWith
  cases hk : stream.chunks[k]? with
  | none => exact le_rfl
  | some chunk =>
    rcases chunk with bytes | ⟨kind, target, bytes, address⟩ | target
    · exact le_rfl
    · cases kind with
      | jump opcode => exact h target ⟨_, opcode, hk, rfl, rfl⟩
      | offset | stringOffset => exact le_rfl
    · exact le_rfl

/-- Narrower jumps stand nearer to their targets, on either side. -/
theorem near_of_le {stream : Stream} {narrow wide : Nat → Nat}
    (h : ∀ k, stream.widthWith narrow k ≤ stream.widthWith wide k) (i j : Nat)
    (hlow : -64 ≤ (stream.lengthWith wide j : Int) - stream.lengthWith wide i)
    (hhigh : (stream.lengthWith wide j : Int) - stream.lengthWith wide i ≤ 62) :
  -64 ≤ (stream.lengthWith narrow j : Int) - stream.lengthWith narrow i
    ∧ (stream.lengthWith narrow j : Int) - stream.lengthWith narrow i ≤ 62
  := by
  have hbetween {a b : Nat} (hab : a ≤ b) (widths : Nat → Nat) : stream.lengthWith widths b
      = stream.lengthWith widths a + ∑ k ∈ Finset.Ico a b, stream.widthWith widths k :=
    (Finset.sum_range_add_sum_Ico _ hab).symm
  have hsum (a b : Nat) : ∑ k ∈ Finset.Ico a b, stream.widthWith narrow k
      ≤ ∑ k ∈ Finset.Ico a b, stream.widthWith wide k :=
    Finset.sum_le_sum fun k _ => h k
  rcases le_total i j with hforward | hback
  · have hnarrow := hbetween hforward narrow
    have hwide := hbetween hforward wide
    have := hsum i j
    omega
  · have hnarrow := hbetween hback narrow
    have hwide := hbetween hback wide
    have := hsum j i
    omega

/-! ### Streams of one shape -/

theorem lengthBefore_eq_sum (stream : Stream) (i : Nat) :
  stream.lengthBefore i = ∑ k ∈ Finset.range i, stream.widths k
  := by
  induction i with
  | zero => rfl
  | succ i ih =>
    rw [Finset.sum_range_succ, ← ih]
    cases hi : stream.chunks[i]? with
    | none =>
      have hle := List.getElem?_eq_none_iff.mp hi
      rw [lengthBefore, lengthBefore, List.take_of_length_le hle,
        List.take_of_length_le (Nat.le_succ_of_le hle), widths, hi]
      rfl
    | some chunk =>
      rw [lengthBefore_succ hi, widths, hi]
      rfl

/-- A chunk stands at the same place in streams of one shape. -/
theorem SameShape.getElem? {a b : Stream} (h : SameShape a b) (i : Nat) :
  a.chunks[i]?.map Chunk.skeleton = b.chunks[i]?.map Chunk.skeleton
  := by
  have hi := congrArg (·[i]?) h.chunks
  rwa [List.getElem?_map, List.getElem?_map] at hi

theorem SameShape.symm {a b : Stream} (h : SameShape a b) :
  SameShape b a
  := ⟨h.chunks.symm, h.placed.symm⟩

theorem SameShape.record {a b : Stream} (h : SameShape a b) {i : Nat} {r : Record}
    (hr : a.chunks[i]? = some (.record r)) :
  ∃ r', b.chunks[i]? = some (.record r') ∧ r'.kind = r.kind ∧ r'.target = r.target
  := by
  have hi := h.getElem? i
  rw [hr, Option.map_some] at hi
  obtain ⟨chunk, hchunk, hskeleton⟩ := Option.map_eq_some_iff.mp hi.symm
  cases chunk with
  | code | mark => cases hskeleton
  | record r' =>
    simp only [Chunk.skeleton, Chunk.record.injEq, Record.mk.injEq] at hskeleton
    exact ⟨r', hchunk, hskeleton.1, hskeleton.2.1⟩

theorem SameShape.mark {a b : Stream} (h : SameShape a b) {i : Nat} {target : Target}
    (hmark : a.chunks[i]? = some (.mark target)) :
  b.chunks[i]? = some (.mark target)
  := by
  have hi := h.getElem? i
  rw [hmark, Option.map_some] at hi
  obtain ⟨chunk, hchunk, hskeleton⟩ := Option.map_eq_some_iff.mp hi.symm
  cases chunk with
  | code | record => cases hskeleton
  | mark other =>
    cases hskeleton
    exact hchunk

/-! ### Rounds -/

/-- The short form counts from -64 up to 62. -/
theorem length_jumpOperand_eq_one (delta : Int) :
  (jumpOperand delta false).length = 1 ↔ -64 ≤ delta ∧ delta ≤ 62
  := by
  unfold jumpOperand
  split_ifs with hforward hshort hback
  · simp only [List.length_cons, List.length_nil, true_iff]
    omega
  · simp only [and_true] at hshort
    simp only [List.length_cons, List.length_nil]
    omega
  · simp only [List.length_cons, List.length_nil, true_iff]
    omega
  · simp only [and_true] at hback
    simp only [List.length_cons, List.length_nil]
    omega

/-- Where addresses are those of places, a jump crosses the bytes between its end and its target. -/
theorem displacement_eq {stream : Stream} {base : Int}
    (places : ∀ i chunk, stream.chunks[i]? = some chunk →
      StandsAt stream.targets (base + stream.lengthBefore i) chunk)
    {i j : Nat} {r : Record} (hr : stream.chunks[i]? = some (.record r))
    (hmark : stream.chunks[j]? = some (.mark r.target)) :
  r.displacement (targetAddress stream.targets r.target)
    = stream.lengthBefore j - stream.lengthBefore (i + 1)
  := by
  have haddress : r.address = base + stream.lengthBefore i := places i _ hr
  have hplace : targetAddress stream.targets r.target = base + stream.lengthBefore j :=
    places j _ hmark
  have hend : stream.lengthBefore (i + 1) = stream.lengthBefore i + r.bytes.length :=
    lengthBefore_succ hr
  rw [Record.displacement, hplace, haddress]
  omega

/-- Where all targets are placed, every record finds the mark of its target. -/
theorem WellFormed.exists_mark {stream : Stream} (wf : WellFormed stream)
    (placed : ∀ state ∈ stream.targets, state.placed = true) {r : Record}
    (hr : .record r ∈ stream.chunks) :
  ∃ j : Nat, stream.chunks[j]? = some (.mark r.target)
  := by
  have htarget := wf.targeted hr
  apply List.mem_iff_getElem?.mp
  apply wf.marked (List.getElem?_eq_getElem htarget) (placed _ (List.getElem_mem htarget))

/-- Assigning gives every record and every target the address of its place. -/
theorem places_assign {stream : Stream} (h : stream.Regular) (base : Int) :
  ∀ i chunk, (stream.assign base).1.chunks[i]? = some chunk →
    StandsAt (stream.assign base).1.targets (base + (stream.assign base).1.lengthBefore i) chunk
  := by
  intro i chunk hi
  have hinside : ∀ target ∈ marks stream.chunks, target < stream.targets.length := by
    intro target htarget
    have hplace := (List.getElem?_eq_some_iff.mp (h.placed target htarget)).1
    rwa [List.length_map] at hplace
  apply assignFrom_standsAt base h.nodup hinside hi

theorem widths_assign (stream : Stream) (base : Int) :
  (stream.assign base).1.widths = stream.widths
  := by
  funext i
  have hi := congrArg (·[i]?) (assignFrom_chunks base stream.chunks stream.targets).1
  rw [List.getElem?_map, List.getElem?_map] at hi
  rw [widths, widths, ← hi]
  rfl

section

variable {stream grown : Stream} (fresh : Fresh stream)
  (noOffsets : ∀ r, .record r ∈ stream.chunks → r.kind ≠ .offset)
  (shape : SameShape stream grown) (regular : grown.Regular)

include fresh noOffsets shape regular

/-- Nothing but jumps has changed its width. -/
theorem widths_eq_widthWith (k : Nat) :
  grown.widths k = stream.widthWith grown.widths k
  := by
  have hk := shape.getElem? k
  cases hchunk : stream.chunks[k]? with
  | none =>
    rw [hchunk, Option.map_none] at hk
    rw [widthWith, hchunk, widths, Option.map_eq_none_iff.mp hk.symm]
    rfl
  | some chunk =>
    rw [hchunk, Option.map_some] at hk
    obtain ⟨chunk', hchunk', hskeleton⟩ := Option.map_eq_some_iff.mp hk.symm
    have hwidths : grown.widths k = chunk'.bytes.length := by
      rw [widths, hchunk']
      rfl
    rw [widthWith, hchunk, Option.map_some, Option.getD_some]
    cases chunk with
    | code bytes =>
      cases chunk' with
      | code bytes' =>
        cases hskeleton
        exact hwidths
      | record | mark => cases hskeleton
    | mark target =>
      cases chunk' with
      | mark target' => exact hwidths
      | code | record => cases hskeleton
    | record r =>
      cases chunk' with
      | code | mark => cases hskeleton
      | record r' =>
        have hmem := List.mem_of_getElem? hchunk
        have hfirst := fresh.firstWidth hmem
        have hother := noOffsets r hmem
        have hfits := regular.fits _ (List.mem_of_getElem? hchunk')
        simp only [Chunk.skeleton, Chunk.record.injEq, Record.mk.injEq] at hskeleton
        obtain ⟨hfirst', hlast'⟩ := hfits
        rw [hskeleton.1] at hfirst' hlast'
        rcases r with ⟨kind, target, bytes, address⟩
        cases kind with
        | jump opcode => rfl
        | offset => cases hother rfl
        | stringOffset =>
          rw [hwidths]
          exact (le_antisymm hlast' hfirst').trans hfirst.symm

theorem lengthBefore_eq_lengthWith (i : Nat) :
  grown.lengthBefore i = stream.lengthWith grown.widths i
  := by
  rw [lengthBefore_eq_sum, lengthWith]
  apply Finset.sum_congr rfl
  intro k _
  apply widths_eq_widthWith fresh noOffsets shape regular

/-- Under widths that are no wider, a jump that is given two bytes is near enough to its target. -/
theorem near_of_below {widths : Nat → Nat} (consistent : stream.Consistent widths)
    (below : ∀ {i target}, stream.JumpsAt i target → grown.widths i ≤ widths i) {i j : Nat}
    {target : Target} (hjump : stream.JumpsAt i target) (htwo : widths i = 2)
    (hmark : stream.chunks[j]? = some (.mark target)) :
  -64 ≤ (grown.lengthBefore j : Int) - grown.lengthBefore (i + 1)
    ∧ (grown.lengthBefore j : Int) - grown.lengthBefore (i + 1) ≤ 62
  := by
  obtain ⟨hlow, hhigh⟩ := consistent.near hjump htwo hmark
  rw [lengthBefore_eq_lengthWith fresh noOffsets shape regular,
    lengthBefore_eq_lengthWith fresh noOffsets shape regular]
  apply near_of_le _ _ _ hlow hhigh
  intro k
  apply widthWith_mono
  intro target hjump
  apply below hjump

/-- One round of settling stays at or below consistent widths. -/
theorem widths_round_le {widths : Nat → Nat} (consistent : stream.Consistent widths)
    (placed : ∀ state ∈ stream.targets, state.placed = true) (base : Int)
    (below : ∀ {i target}, stream.JumpsAt i target → grown.widths i ≤ widths i) {i : Nat}
    {target : Target} (hjump : stream.JumpsAt i target) :
  (round base grown).widths i ≤ widths i
  := by
  have hassigned := shape.trans (assign_sameShape grown base)
  have hregular := regular.assign base
  have hbelow : ∀ {i target}, stream.JumpsAt i target →
      (grown.assign base).1.widths i ≤ widths i := by
    rw [widths_assign]
    exact below
  obtain ⟨r, opcode, hr, hkind, rfl⟩ := hjump
  obtain ⟨r', hr', hkind', htarget'⟩ := hassigned.record hr
  have hround : (round base grown).widths i
      = (r'.encode (targetAddress (grown.assign base).1.targets r'.target)).length := by
    rw [Stream.widths, regular.round_eq, List.getElem?_map, hr']
    rfl
  have hfits : r'.Fits := hregular.fits _ (List.mem_of_getElem? hr')
  rw [hround]
  rcases consistent.two_or_three ⟨r, opcode, hr, hkind, rfl⟩ with htwo | hthree
  · -- the jump is short now, and the target is at least as near as under the given widths
    have hshort : r'.bytes.length = 2 := by
      have hle := hbelow ⟨r, opcode, hr, hkind, rfl⟩
      rw [Stream.widths, hr', htwo] at hle
      have hfirst := hfits.1
      rw [hkind', hkind] at hfirst
      exact le_antisymm hle hfirst
    obtain ⟨j, hmark⟩ := fresh.built.wellFormed.exists_mark placed (List.mem_of_getElem? hr)
    have hnear := near_of_below fresh noOffsets hassigned hregular consistent hbelow
      ⟨r, opcode, hr, hkind, rfl⟩ htwo hmark
    have hmark' := hassigned.mark hmark
    rw [← htarget'] at hmark'
    rw [← displacement_eq (places_assign regular base) hr' hmark', Record.displacement,
      ← length_jumpOperand_eq_one, hshort] at hnear
    simp only [Record.encode, hkind', hkind, hshort, List.length_cons]
    exact (congrArg Nat.succ hnear).trans_le htwo.ge
  · have hlast := (hfits.encode (targetAddress (grown.assign base).1.targets r'.target)).2
    rw [hkind', hkind] at hlast
    rw [hthree]
    exact hlast

end

/-- Rounds of settling stay at or below consistent widths. -/
theorem widths_rounds_le {stream : Stream} (fresh : Fresh stream)
    (noOffsets : ∀ r, .record r ∈ stream.chunks → r.kind ≠ .offset) {widths : Nat → Nat}
    (consistent : stream.Consistent widths)
    (placed : ∀ state ∈ stream.targets, state.placed = true) (base : Int) (n : Nat) {i : Nat}
    {target : Target} (hjump : stream.JumpsAt i target) :
  ((round base)^[n] stream).widths i ≤ widths i
  := by
  have hregular := fresh.built.regular
  have hshape (n : Nat) : SameShape stream ((round base)^[n] stream) := by
    induction n with
    | zero => exact .refl stream
    | succ n ih =>
      rw [Function.iterate_succ_apply']
      exact ih.trans (round_sameShape base _)
  induction n generalizing i target with
  | zero =>
    -- every jump starts with two bytes, and no width is less
    obtain ⟨r, opcode, hr, hkind, rfl⟩ := hjump
    have hfirst := fresh.firstWidth (List.mem_of_getElem? hr)
    rw [hkind] at hfirst
    have htwo : stream.widths i = 2 := by
      rw [Stream.widths, hr]
      exact hfirst
    have hcases := consistent.two_or_three ⟨r, opcode, hr, hkind, rfl⟩
    rw [Function.iterate_zero_apply, htwo]
    omega
  | succ n ih =>
    rw [Function.iterate_succ_apply']
    apply widths_round_le fresh noOffsets (hshape n) (hregular.rounds base n) consistent placed base
      ih hjump

/-! ### Settled streams -/

/-- What settling makes of a stream without a failure, it makes by rounds. -/
theorem settle_rounds {stream settled : Stream} (built : Built stream) {base : Int} {limit : Nat}
    (ok : stream.settle base limit = (settled, .ok ())) :
  (∀ state ∈ stream.targets, state.placed = true) ∧ ∃ n, settled = (round base)^[n] stream
  := by
  obtain ⟨shape, _, _, placed⟩ := settle_fixed ok
  have hplaced : ∀ state ∈ stream.targets, state.placed = true := by
    intro state hstate
    have hflag := List.mem_map_of_mem (f := (·.placed)) hstate
    rw [shape.placed] at hflag
    obtain ⟨state', hstate', heq⟩ := List.mem_map.mp hflag
    rw [← heq, placed state' hstate']
  use hplaced
  obtain ⟨n, _, hn, _⟩ := settleRounds_eq built.regular base limit limit
  rw [← settle_of_placed hplaced, ok] at hn
  exact ⟨n, hn⟩

/-- Nothing but jumps has changed its width when settling ends. -/
theorem widths_settled {stream settled : Stream} (fresh : Fresh stream)
    (noOffsets : ∀ r, .record r ∈ stream.chunks → r.kind ≠ .offset) {base : Int} {limit : Nat}
    (ok : stream.settle base limit = (settled, .ok ())) (i : Nat) :
  settled.widths i = stream.widthWith settled.widths i
  := by
  have regular := fresh.built.regular.settle base limit
  rw [ok] at regular
  apply widths_eq_widthWith fresh noOffsets (settle_fixed ok).1 regular

/-- Settling ends with consistent widths. -/
theorem consistent_settled {stream settled : Stream} (fresh : Fresh stream)
    (noOffsets : ∀ r, .record r ∈ stream.chunks → r.kind ≠ .offset) {base : Int} {limit : Nat}
    (ok : stream.settle base limit = (settled, .ok ())) :
  stream.Consistent settled.widths
  := by
  obtain ⟨shape, places, encoded, _⟩ := settle_fixed ok
  have regular := fresh.built.regular.settle base limit
  rw [ok] at regular
  constructor
  · rintro i target ⟨r, opcode, hr, hkind, rfl⟩
    obtain ⟨r', hr', hkind', _⟩ := shape.record hr
    obtain ⟨hfirst, hlast⟩ : r'.Fits := regular.fits _ (List.mem_of_getElem? hr')
    rw [hkind', hkind] at hfirst hlast
    rw [widths, hr']
    simp only [RecordKind.firstWidth, RecordKind.lastWidth] at hfirst hlast
    show r'.bytes.length = 2 ∨ r'.bytes.length = 3
    omega
  · rintro i j target ⟨r, opcode, hr, hkind, rfl⟩ htwo hmark
    obtain ⟨r', hr', hkind', htarget'⟩ := shape.record hr
    have hshort : r'.bytes.length = 2 := by
      rw [widths, hr'] at htwo
      exact htwo
    have hmark' := shape.mark hmark
    rw [← htarget'] at hmark'
    rw [← lengthBefore_eq_lengthWith fresh noOffsets shape regular,
      ← lengthBefore_eq_lengthWith fresh noOffsets shape regular,
      ← displacement_eq places hr' hmark', Record.displacement, ← length_jumpOperand_eq_one]
    have hbytes := congrArg List.length (encoded r' (List.mem_of_getElem? hr'))
    simp only [Record.encode, hkind', hkind, hshort, List.length_cons] at hbytes
    rw [hshort]
    exact Nat.succ.inj hbytes

/-- The bytes of settled jumps depend on nothing but their widths. -/
theorem toBytes_eq_of_widths {stream a b : Stream} {base base' : Int} {limit limit' : Nat}
    (built : Built stream)
    (onlyJumps : ∀ r, .record r ∈ stream.chunks → ∃ opcode, r.kind = .jump opcode)
    (ok : stream.settle base limit = (a, .ok ())) (ok' : stream.settle base' limit' = (b, .ok ()))
    (hwidths : a.widths = b.widths) :
  a.toBytes = b.toBytes
  := by
  obtain ⟨shape, hplaces, hencoded, placed⟩ := settle_fixed ok
  obtain ⟨shape', hplaces', hencoded', _⟩ := settle_fixed ok'
  have wf : WellFormed a := built.wellFormed.of_sameShape shape
  have alike : SameShape a b := shape.symm.trans shape'
  have hlengths (i : Nat) : a.lengthBefore i = b.lengthBefore i := by
    rw [lengthBefore_eq_sum, lengthBefore_eq_sum, hwidths]
  rw [toBytes, toBytes, List.flatMap_def, List.flatMap_def]
  congr 1
  apply List.ext_getElem?
  intro i
  rw [List.getElem?_map, List.getElem?_map]
  have hi := alike.getElem? i
  cases hchunk : a.chunks[i]? with
  | none =>
    rw [hchunk, Option.map_none] at hi
    rw [Option.map_eq_none_iff.mp hi.symm]
  | some chunk =>
    cases chunk with
    | code bytes =>
      rw [hchunk, Option.map_some] at hi
      obtain ⟨chunk', hchunk', hskeleton⟩ := Option.map_eq_some_iff.mp hi.symm
      cases chunk' with
      | code bytes' =>
        cases hskeleton
        rw [hchunk']
      | record | mark => cases hskeleton
    | mark target => rw [alike.mark hchunk]
    | record r =>
      obtain ⟨r', hr', hkind, htarget⟩ := alike.record hchunk
      obtain ⟨first, hfirst, hsame, _⟩ := shape.symm.record hchunk
      obtain ⟨opcode, hopcode⟩ := onlyJumps first (List.mem_of_getElem? hfirst)
      rw [hsame] at hopcode
      have hmem := List.mem_of_getElem? hchunk
      obtain ⟨j, hmark⟩ := wf.exists_mark placed hmem
      have hmark' := alike.mark hmark
      rw [← htarget] at hmark'
      have hlength : r.bytes.length = r'.bytes.length := by
        have := congrFun hwidths i
        rwa [widths, widths, hchunk, hr'] at this
      have hdelta := displacement_eq hplaces hchunk hmark
      rw [hlengths, hlengths, ← displacement_eq hplaces' hr' hmark'] at hdelta
      simp only [Record.displacement, hlength] at hdelta
      rw [hr', Option.map_some, Option.map_some, Option.some.injEq]
      show r.bytes = r'.bytes
      rw [← hencoded r hmem, ← hencoded' r' (List.mem_of_getElem? hr')]
      simp only [Record.encode, hkind, hopcode, hlength, hdelta]

/-- Settling ends with the least consistent widths. So where jumps are the only records, the bytes
are the same wherever the stream starts. -/
theorem settle_least_widths {stream settled : Stream} {base : Int} {limit : Nat}
    (fresh : Fresh stream) (noOffsets : ∀ r, .record r ∈ stream.chunks → r.kind ≠ .offset)
    (ok : stream.settle base limit = (settled, .ok ())) :
  stream.Consistent settled.widths
    ∧ (∀ widths, stream.Consistent widths → ∀ i target, stream.JumpsAt i target →
      settled.widths i ≤ widths i)
    ∧ ((∀ r, .record r ∈ stream.chunks → ∃ opcode, r.kind = .jump opcode) →
      ∀ base' limit' settled', stream.settle base' limit' = (settled', .ok ()) →
        settled'.toBytes = settled.toBytes)
  := by
  have least {settled : Stream} {base : Int} {limit : Nat}
      (ok : stream.settle base limit = (settled, .ok ())) {widths : Nat → Nat}
      (consistent : stream.Consistent widths) {i : Nat} {target : Target}
      (hjump : stream.JumpsAt i target) : settled.widths i ≤ widths i := by
    obtain ⟨placed, n, rfl⟩ := settle_rounds fresh.built ok
    apply widths_rounds_le fresh noOffsets consistent placed base n hjump
  have consistent := consistent_settled fresh noOffsets ok
  refine ⟨consistent, ?_, ?_⟩
  · intro widths hwidths i target hjump
    apply least ok hwidths hjump
  · intro onlyJumps base' limit' settled' ok'
    apply toBytes_eq_of_widths fresh.built onlyJumps ok' ok
    have consistent' := consistent_settled fresh noOffsets ok'
    -- each of the two is the least, and everything else is as wide as it was
    funext i
    rw [widths_settled fresh noOffsets ok, widths_settled fresh noOffsets ok']
    apply le_antisymm
    · apply widthWith_mono
      intro target hjump
      apply least ok' consistent hjump
    · apply widthWith_mono
      intro target hjump
      apply least ok consistent' hjump

/-- Two jumps across each other, each of which can be short only if the other one is. -/
def crossedJumps : Stream :=
  (((((({} : Stream).newTarget.2.newTarget.2).place 0).jump 0x0a 1).code
    (List.replicate 60 0x35)).jump 0x04 0).place 1

/-- The long form for both jumps is consistent, and settling finds the short form for both. -/
theorem settle_least_widths_crossedJumps :
  Fresh crossedJumps
    ∧ (∀ r, .record r ∈ crossedJumps.chunks → ∃ opcode, r.kind = .jump opcode)
    ∧ (crossedJumps.settle 100 2).2 = .ok () ∧ crossedJumps.Consistent (fun _ => 3)
    ∧ (crossedJumps.settle 100 2).1.widths 1 = 2 ∧ (crossedJumps.settle 100 2).1.widths 3 = 2
    ∧ crossedJumps.Consistent (crossedJumps.settle 100 2).1.widths
    ∧ ∀ base limit settled, crossedJumps.settle base limit = (settled, .ok ()) →
      settled.toBytes = (crossedJumps.settle 100 2).1.toBytes
  := by
  have fresh : Fresh crossedJumps := by
    apply Fresh.place 1 {} (by decide) rfl
    apply Fresh.jump _ 0 (by decide)
    apply Fresh.code
    apply Fresh.jump _ 1 (by decide)
    apply Fresh.place 0 {} (by decide) rfl
    apply Fresh.newTarget
    apply Fresh.newTarget Fresh.empty
  have onlyJumps : ∀ r, .record r ∈ crossedJumps.chunks → ∃ opcode, r.kind = .jump opcode := by
    have hchunks : crossedJumps.chunks
        = [.mark 0, .record { kind := .jump 0x0a, target := 1, bytes := [0x0a, 0] },
          .code (List.replicate 60 0x35),
          .record { kind := .jump 0x04, target := 0, bytes := [0x04, 0] }, .mark 1] := rfl
    intro r hr
    rw [hchunks] at hr
    simp only [List.mem_cons, List.not_mem_nil, or_false, reduceCtorEq, Chunk.record.injEq,
      false_or] at hr
    rcases hr with rfl | rfl
    · exact ⟨_, rfl⟩
    · exact ⟨_, rfl⟩
  have noOffsets : ∀ r, .record r ∈ crossedJumps.chunks → r.kind ≠ .offset := by
    intro r hr hoffset
    obtain ⟨opcode, hopcode⟩ := onlyJumps r hr
    rw [hoffset] at hopcode
    cases hopcode
  have ok : (crossedJumps.settle 100 2).2 = .ok () := by decide +kernel
  have long : crossedJumps.Consistent (fun _ => 3) := ⟨fun _ => .inr rfl, nofun⟩
  obtain ⟨consistent, _, hbytes⟩ := settle_least_widths fresh noOffsets (Prod.ext rfl ok)
  exact ⟨fresh, onlyJumps, ok, long, by decide +kernel, by decide +kernel, consistent,
    hbytes onlyJumps⟩

end Stream

end SpinHub
