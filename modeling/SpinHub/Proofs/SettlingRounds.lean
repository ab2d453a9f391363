import Mathlib
import SpinHub.Proofs.SettledStreams

/-!
# Settling ends

Encoding a record again never makes it shorter, and its kind bounds how wide it can get. So a
stream has room for so many bytes and no more, and every round that widens a record uses some of
it up. A round that widens none leaves all addresses where they are, and the next one changes
nothing.
-/

namespace SpinHub

/-! ### Widths of records -/

/-- A push has at least the length that is asked for, and at most five bytes. -/
theorem Push.length_encode (v : Word) {minLength : Nat} (h : minLength ≤ 5) :
  minLength ≤ (encode v minLength).length ∧ (encode v minLength).length ≤ 5
  := by
  rw [encode]
  split
  · rename_i hone
    exact ⟨hone.2, by decide⟩
  split
  · rename_i hone
    exact ⟨hone.2, by decide⟩
  split
  · rename_i hone
    exact ⟨hone.2, by decide⟩
  split
  · rename_i b hb
    split_ifs at hb with htwo
    exact ⟨htwo, by simp⟩
  split_ifs with h1 h2 h3 h4 h5
  · exact ⟨h1.2, by simp⟩
  · exact ⟨h2.2, by simp⟩
  · exact ⟨h3.2, by simp⟩
  · exact ⟨h4.2, by simp⟩
  · exact ⟨h5.2, by simp⟩
  · exact ⟨h, le_rfl⟩

namespace RecordKind

/-- The bytes of a record when it is added to a stream. -/
def firstWidth : RecordKind → Nat
  | .jump _ | .offset => 2
  | .stringOffset => 3

/-- The bytes of a record at its widest. -/
def lastWidth : RecordKind → Nat
  | .jump _ | .stringOffset => 3
  | .offset => 5

end RecordKind

namespace Record

/-- A record has a width of its kind. -/
def Fits (r : Record) : Prop :=
  r.kind.firstWidth ≤ r.bytes.length ∧ r.bytes.length ≤ r.kind.lastWidth

/-- A jump has an operand of one or two bytes, and of two if it was long already. -/
theorem length_jumpOperand (delta : Int) (long : Bool) :
  1 ≤ (jumpOperand delta long).length ∧ (jumpOperand delta long).length ≤ 2
    ∧ (long = true → (jumpOperand delta long).length = 2)
  := by
  unfold jumpOperand
  split_ifs <;> simp_all

/-- The encoding of a record is no shorter than its bytes are, and no wider than its kind allows. -/
theorem Fits.encode {r : Record} (h : r.Fits) (target : Int) :
  r.bytes.length ≤ (r.encode target).length ∧ (r.encode target).length ≤ r.kind.lastWidth
  := by
  obtain ⟨hfirst, hlast⟩ := h
  rw [Record.encode]
  cases hkind : r.kind with
  | jump opcode =>
    simp only [hkind, RecordKind.firstWidth, RecordKind.lastWidth] at hfirst hlast ⊢
    simp only [List.length_cons]
    obtain ⟨hshort, hmost, hlong⟩ := length_jumpOperand
      (target - (r.address + r.bytes.length)) (decide (r.bytes.length = 3))
    have hwide := hlong ∘ decide_eq_true
    omega
  | offset =>
    simp only [hkind, RecordKind.lastWidth] at hlast ⊢
    apply Push.length_encode _ hlast
  | stringOffset =>
    simp only [hkind, RecordKind.lastWidth] at hlast ⊢
    exact ⟨hlast, le_rfl⟩

end Record

namespace Chunk

/-- A chunk whose record is encoded again. -/
def encoded (targets : List TargetState) : Chunk → Chunk
  | .record r => .record { r with bytes := r.encode (Stream.targetAddress targets r.target) }
  | chunk => chunk

/-- A record in a chunk has a width of its kind. -/
def Fits : Chunk → Prop
  | .record r => r.Fits
  | _ => True

/-- The bytes of a chunk at its widest. -/
def lastWidth : Chunk → Nat
  | .record r => r.kind.lastWidth
  | chunk => chunk.bytes.length

/-- A chunk that fits is no longer than it may get. -/
theorem Fits.length_le {chunk : Chunk} (h : chunk.Fits) :
  chunk.bytes.length ≤ chunk.lastWidth
  := by
  cases chunk with
  | record r => exact h.2
  | code | mark => exact le_rfl

/-- Encoding a chunk that fits does not make it shorter. -/
theorem Fits.length_le_encoded {chunk : Chunk} (h : chunk.Fits) (targets : List TargetState) :
  chunk.bytes.length ≤ (chunk.encoded targets).bytes.length
  := by
  cases chunk with
  | record r => apply (Record.Fits.encode h _).1
  | code | mark => exact le_rfl

/-- A chunk that fits still fits when it is encoded. -/
theorem Fits.encoded {chunk : Chunk} (h : chunk.Fits) (targets : List TargetState) :
  (chunk.encoded targets).Fits
  := by
  cases chunk with
  | record r =>
    obtain ⟨hlonger, hlast⟩ := Record.Fits.encode h (Stream.targetAddress targets r.target)
    exact ⟨h.1.trans hlonger, hlast⟩
  | code | mark => trivial

/-- A record that did not get wider is not changed by encoding it once more. -/
theorem encoded_encoded {chunk : Chunk} {targets : List TargetState}
    (h : (chunk.encoded targets).bytes.length = chunk.bytes.length) :
  (chunk.encoded targets).encoded targets = chunk.encoded targets
  := by
  cases chunk with
  | record r =>
    replace h : (r.encode (Stream.targetAddress targets r.target)).length = r.bytes.length := h
    simp only [Chunk.encoded, Record.encode] at h ⊢
    rw [h]
  | code | mark => rfl

/-- A record is changed by encoding it exactly if its bytes are. -/
theorem encoded_bne (targets : List TargetState) (r : Record) :
  ((Chunk.record r).encoded targets != .record r)
    = (r.encode (Stream.targetAddress targets r.target) != r.bytes)
  := by
  rcases r with ⟨kind, target, bytes, address⟩
  rw [bne, bne, Bool.eq_iff_iff]
  simp [Chunk.encoded]

end Chunk

namespace Stream

/-! ### One pass of encoding -/

/-- Where all records have widths of their kinds, encoding them does not fail. -/
theorem encodeRecords_eq {targets : List TargetState} {chunks : List Chunk}
    (h : ∀ chunk ∈ chunks, chunk.Fits) :
  encodeRecords targets chunks
    = (chunks.map (·.encoded targets), .ok (chunks.map (·.encoded targets) != chunks))
  := by
  induction chunks with
  | nil => rfl
  | cons chunk rest ih =>
    have hrest := ih fun other hother => h other (List.mem_cons_of_mem chunk hother)
    have hchanged : ((chunk :: rest).map (·.encoded targets) != chunk :: rest)
        = (chunk.encoded targets != chunk || rest.map (·.encoded targets) != rest) := by
      simp only [List.map_cons, bne, List.cons_beq_cons, Bool.not_and]
    rw [hchanged]
    cases chunk with
    | code | mark =>
      rw [encodeRecords, hrest]
      · simp only [Chunk.encoded, List.map_cons, bne_self_eq_false, Bool.false_or]
      · intro r hr
        cases hr
    | record r =>
      have hlonger := (Record.Fits.encode (h _ List.mem_cons_self)
        (targetAddress targets r.target)).1
      rw [encodeRecords, if_neg (Nat.not_lt.mpr hlonger), hrest, Chunk.encoded_bne]
      rfl

/-- The bytes that chunks stand for at their widest. -/
def lastLength (chunks : List Chunk) : Nat := total (chunks.map Chunk.lastWidth)

/-- Chunks that fit stand for no more bytes than they may get to. -/
theorem chunksLength_le_lastLength {chunks : List Chunk} (h : ∀ chunk ∈ chunks, chunk.Fits) :
  chunksLength chunks ≤ lastLength chunks
  := by
  rw [chunksLength, lastLength, total_eq_sum, total_eq_sum]
  apply List.sum_le_sum
  intro chunk hchunk
  apply (h chunk hchunk).length_le

/-- Encoding chunks that fit does not make them shorter together. -/
theorem chunksLength_le_encoded {chunks : List Chunk} (h : ∀ chunk ∈ chunks, chunk.Fits)
    (targets : List TargetState) :
  chunksLength chunks ≤ chunksLength (chunks.map (·.encoded targets))
  := by
  rw [chunksLength, chunksLength, total_eq_sum, total_eq_sum, List.map_map]
  apply List.sum_le_sum
  intro chunk hchunk
  apply (h chunk hchunk).length_le_encoded

/-- If encoding leaves the stream as long as it was, no record got wider. -/
theorem length_encoded_of_chunksLength {chunks : List Chunk} {targets : List TargetState}
    (h : ∀ chunk ∈ chunks, chunk.Fits)
    (hlength : chunksLength (chunks.map (·.encoded targets)) = chunksLength chunks) :
  ∀ chunk ∈ chunks, (chunk.encoded targets).bytes.length = chunk.bytes.length
  := by
  induction chunks with
  | nil => nofun
  | cons first rest ih =>
    have hrest : ∀ chunk ∈ rest, chunk.Fits := fun chunk hchunk =>
      h chunk (List.mem_cons_of_mem first hchunk)
    have hfirst := (h first List.mem_cons_self).length_le_encoded targets
    have htail := chunksLength_le_encoded hrest targets
    rw [List.map_cons, chunksLength_cons, chunksLength_cons] at hlength
    intro chunk hchunk
    rcases List.mem_cons.mp hchunk with rfl | hmem
    · omega
    · apply ih hrest (by omega) chunk hmem

/-! ### Streams with one mark for each target -/

/-- The target of a mark. -/
def markOf? : Chunk → Option Target
  | .mark target => some target
  | _ => none

/-- The targets that are marked in chunks. -/
def marks (chunks : List Chunk) : List Target := chunks.filterMap markOf?

/-- No target has two marks, marked targets are placed, and all records have widths of their
kinds. -/
structure Regular (stream : Stream) : Prop where
  nodup : (marks stream.chunks).Nodup
  placed : ∀ target ∈ marks stream.chunks,
    (stream.targets.map (·.placed))[target]? = some true
  fits : ∀ chunk ∈ stream.chunks, chunk.Fits

theorem marks_skeleton (chunks : List Chunk) :
  marks (chunks.map Chunk.skeleton) = marks chunks
  := by
  rw [marks, List.filterMap_map, marks]
  congr 1
  funext chunk
  cases chunk <;> rfl

/-- What is read off marks and records is not changed by final bytes. -/
theorem filterMap_appendCode {α : Type} {f : Chunk → Option α} (hf : ∀ run, f (.code run) = none)
    (chunks : List Chunk) (bytes : Bytes) :
  (appendCode chunks bytes).filterMap f = chunks.filterMap f
  := by
  fun_induction appendCode chunks bytes with
  | case1 => rfl
  | case2 => rw [List.filterMap_cons, hf]
  | case3 => rw [List.filterMap_cons, hf, List.filterMap_cons, hf]
  | case4 chunk rest bytes _ ih => rw [List.filterMap_cons, List.filterMap_cons, ih]

/-- Code has no marks. -/
theorem marks_appendCode (chunks : List Chunk) (bytes : Bytes) :
  marks (appendCode chunks bytes) = marks chunks
  := filterMap_appendCode (fun _ => rfl) chunks bytes

namespace Regular

/-- Streams of the same shape have the same marks. -/
theorem of_sameShape {a b : Stream} (h : a.Regular) (hshape : SameShape a b)
    (hfits : ∀ chunk ∈ b.chunks, chunk.Fits) :
  b.Regular
  := by
  have hmarks : marks b.chunks = marks a.chunks := by
    rw [← marks_skeleton, ← hshape.chunks, marks_skeleton]
  refine ⟨?_, ?_, hfits⟩
  · rw [hmarks]
    exact h.nodup
  · rw [hmarks, ← hshape.placed]
    exact h.placed

theorem code {stream : Stream} (h : stream.Regular) (bytes : Bytes) :
  (stream.code bytes).Regular
  := by
  refine ⟨?_, ?_, ?_⟩
  · rw [Stream.code, marks_appendCode]
    exact h.nodup
  · rw [Stream.code, marks_appendCode]
    exact h.placed
  · intro chunk hchunk
    cases chunk with
    | record r => apply h.fits _ ((mem_appendCode (by simp) _ _).mp hchunk)
    | code | mark => trivial

theorem newTarget {stream : Stream} (h : stream.Regular) :
  stream.newTarget.2.Regular
  := by
  refine ⟨h.nodup, ?_, h.fits⟩
  intro target htarget
  have hplaced := h.placed target htarget
  rw [Stream.newTarget, List.map_append, List.getElem?_append_left]
  · exact hplaced
  · apply (List.getElem?_eq_some_iff.mp hplaced).1

/-- A target that is free may be placed in a regular stream. -/
theorem place {stream : Stream} (h : stream.Regular) {target : Target} {state : TargetState}
    (hstate : stream.targets[target]? = some state) (hfree : state.placed = false) :
  (stream.place target).Regular
  := by
  have hmarks : marks (stream.place target).chunks = marks stream.chunks ++ [target] := by
    rw [Stream.place, marks, List.filterMap_append]
    rfl
  refine ⟨?_, ?_, ?_⟩
  · rw [hmarks, List.nodup_append]
    refine ⟨h.nodup, List.nodup_singleton target, ?_⟩
    rintro other hother _ hmem rfl
    -- a marked target is placed, and this one is not
    have hplaced := h.placed other hother
    rw [List.mem_singleton.mp hmem, List.getElem?_map, hstate, Option.map_some, hfree] at hplaced
    cases hplaced
  · intro other hother
    rw [hmarks] at hother
    rw [Stream.place, List.getElem?_map, List.getElem?_modify]
    by_cases heq : target = other
    · subst heq
      simp [hstate]
    · have hplaced := h.placed other
        ((List.mem_append.mp hother).resolve_right (by simpa using Ne.symm heq))
      rw [List.getElem?_map] at hplaced
      simpa [heq] using hplaced
  · intro chunk hchunk
    rcases List.mem_append.mp hchunk with hold | hnew
    · apply h.fits chunk hold
    · cases List.mem_singleton.mp hnew
      trivial

/-- A record of the first width of its kind may be added to a regular stream. -/
theorem addRecord {stream : Stream} (h : stream.Regular) {kind : RecordKind} (target : Target)
    {bytes : Bytes} (hbytes : bytes.length = kind.firstWidth) :
  (stream.addRecord kind target bytes).Regular
  := by
  have hmarks : marks (stream.addRecord kind target bytes).chunks = marks stream.chunks := by
    rw [Stream.addRecord, marks, List.filterMap_append]
    apply List.append_nil
  refine ⟨?_, ?_, ?_⟩
  · rw [hmarks]
    exact h.nodup
  · rw [hmarks]
    exact h.placed
  · intro chunk hchunk
    rcases List.mem_append.mp hchunk with hold | hnew
    · apply h.fits chunk hold
    · cases List.mem_singleton.mp hnew
      refine ⟨hbytes.ge, ?_⟩
      rw [hbytes]
      cases kind <;> simp [RecordKind.firstWidth, RecordKind.lastWidth]

end Regular

/-! ### One pass of addresses -/

/-- Addresses are all that assigning changes in chunks. -/
theorem assignFrom_chunks (address : Int) (chunks : List Chunk) (targets : List TargetState) :
  (assignFrom address chunks targets).1.map (·.bytes.length) = chunks.map (·.bytes.length)
    ∧ ((∀ chunk ∈ chunks, chunk.Fits) →
      ∀ chunk ∈ (assignFrom address chunks targets).1, chunk.Fits)
  := by
  induction chunks generalizing address targets with
  | nil => exact ⟨rfl, id⟩
  | cons first rest ih =>
    cases first with
    | code bytes =>
      obtain ⟨hwidths, hfits⟩ := ih (address + bytes.length) targets
      simp only [assignFrom, List.map_cons, hwidths, List.forall_mem_cons, true_and]
      exact fun h => ⟨h.1, hfits h.2⟩
    | record r =>
      obtain ⟨hwidths, hfits⟩ := ih (address + r.bytes.length) targets
      simp only [assignFrom, List.map_cons, hwidths, List.forall_mem_cons]
      exact ⟨rfl, fun h => ⟨h.1, hfits h.2⟩⟩
    | mark target =>
      obtain ⟨hwidths, hfits⟩ := ih address (targets.modify target fun t => { t with address })
      simp only [assignFrom, List.map_cons, hwidths, List.forall_mem_cons, true_and]
      exact fun h => ⟨h.1, hfits h.2⟩

/-- A target that is not marked keeps its address. -/
theorem targetAddress_assignFrom {target : Target} {chunks : List Chunk}
    (h : target ∉ marks chunks) (address : Int) (targets : List TargetState) :
  targetAddress (assignFrom address chunks targets).2.1 target = targetAddress targets target
  := by
  induction chunks generalizing address targets with
  | nil => rfl
  | cons first rest ih =>
    cases first with
    | code bytes => apply ih h
    | record r => apply ih h
    | mark other =>
      have hne : target ≠ other := List.ne_of_not_mem_cons h
      simp only [assignFrom]
      rw [ih (List.not_mem_of_not_mem_cons h), targetAddress,
        List.getElem?_modify_ne _ _ (Ne.symm hne), targetAddress]

/-- Once addresses are assigned, every record and every target has the address of its place. -/
theorem assignFrom_standsAt {chunks : List Chunk} {targets : List TargetState} (address : Int)
    (hnodup : (marks chunks).Nodup) (hinside : ∀ target ∈ marks chunks, target < targets.length)
    {i : Nat} {chunk : Chunk}
    (hi : (assignFrom address chunks targets).1[i]? = some chunk) :
  StandsAt (assignFrom address chunks targets).2.1
    (address + chunksLength ((assignFrom address chunks targets).1.take i)) chunk
  := by
  induction chunks generalizing address targets i with
  | nil => cases hi
  | cons first rest ih =>
    cases first with
    | code bytes =>
      cases i with
      | zero =>
        cases hi
        trivial
      | succ i =>
        have hrest := ih (address + bytes.length) hnodup hinside hi
        simp only [assignFrom, List.take_succ_cons, chunksLength_cons, Int.natCast_add,
          ← Int.add_assoc]
        exact hrest
    | record r =>
      cases i with
      | zero =>
        cases hi
        apply (Int.add_zero address).symm
      | succ i =>
        have hrest := ih (address + r.bytes.length) hnodup hinside hi
        simp only [assignFrom, List.take_succ_cons, chunksLength_cons, Int.natCast_add,
          ← Int.add_assoc]
        exact hrest
    | mark target =>
      obtain ⟨hnew, hnodup⟩ := List.nodup_cons.mp hnodup
      have htarget : target < targets.length := hinside target List.mem_cons_self
      cases i with
      | zero =>
        -- the target was given this address, and has no other mark
        cases hi
        simp only [assignFrom, List.take_zero, chunksLength_nil, Int.natCast_zero, Int.add_zero]
        show targetAddress _ target = address
        rw [targetAddress_assignFrom hnew, targetAddress, List.getElem?_modify_eq,
          List.getElem?_eq_getElem htarget]
        rfl
      | succ i =>
        have hinside' : ∀ other ∈ marks rest,
            other < (targets.modify target fun t => { t with address }).length := by
          intro other hother
          rw [List.length_modify]
          apply hinside other (List.mem_cons_of_mem target hother)
        have hrest := ih address hnodup hinside' hi
        simp only [assignFrom, List.take_succ_cons, chunksLength_cons, Chunk.bytes,
          List.length_nil, Nat.zero_add]
        exact hrest

/-- Where every record and every target has the address of its place, assigning changes none. -/
theorem assignFrom_of_standsAt {address : Int} {chunks : List Chunk} {targets : List TargetState}
    (h : ∀ i chunk, chunks[i]? = some chunk →
      StandsAt targets (address + chunksLength (chunks.take i)) chunk) :
  (assignFrom address chunks targets).2.2 = false
  := by
  induction chunks generalizing address with
  | nil => rfl
  | cons first rest ih =>
    have hfirst := h 0 first rfl
    have hrest : ∀ i chunk, rest[i]? = some chunk →
        StandsAt targets (address + first.bytes.length + chunksLength (rest.take i)) chunk := by
      intro i chunk hi
      have := h (i + 1) chunk hi
      rwa [List.take_succ_cons, chunksLength_cons, Int.natCast_add, ← Int.add_assoc] at this
    rw [List.take_zero, chunksLength_nil, Int.natCast_zero, Int.add_zero] at hfirst
    cases first with
    | code bytes => apply ih hrest
    | record r =>
      simp only [assignFrom, Bool.or_eq_false_iff, bne_eq_false_iff_eq]
      exact ⟨hfirst, ih hrest⟩
    | mark target =>
      have haddress : targetAddress targets target = address := hfirst
      simp only [assignFrom, Bool.or_eq_false_iff, bne_eq_false_iff_eq,
        modify_address_self haddress]
      simp only [Chunk.bytes, List.length_nil, Int.natCast_zero, Int.add_zero] at hrest
      exact ⟨haddress, ih hrest⟩

/-! ### Rounds -/

/-- Assigning addresses changes no length. -/
theorem chunksLength_assign (stream : Stream) (base : Int) :
  chunksLength (stream.assign base).1.chunks = chunksLength stream.chunks
  := congrArg total (assignFrom_chunks base stream.chunks stream.targets).1

/-- A record stays in its place when addresses are assigned, with all its bytes. -/
theorem record_assign {stream : Stream} (base : Int) {i : Nat} {r : Record}
    (hr : stream.chunks[i]? = some (.record r)) :
  ∃ r', (stream.assign base).1.chunks[i]? = some (.record r') ∧ r'.kind = r.kind
    ∧ r'.target = r.target ∧ r'.bytes.length = r.bytes.length
  := by
  have hskeleton := congrArg (·[i]?) (assign_sameShape stream base).chunks
  have hwidth := congrArg (·[i]?) (assignFrom_chunks base stream.chunks stream.targets).1
  simp only [List.getElem?_map, hr, Option.map_some] at hskeleton hwidth
  obtain ⟨chunk, hchunk, hshape⟩ := Option.map_eq_some_iff.mp hskeleton.symm
  rw [assign] at hchunk
  rw [hchunk, Option.map_some, Option.some.injEq] at hwidth
  cases chunk with
  | record r' =>
    simp only [Chunk.skeleton, Chunk.record.injEq, Record.mk.injEq] at hshape
    use r', hchunk
    exact ⟨hshape.1, hshape.2.1, hwidth⟩
  | code | mark => cases hshape

/-- What one round of settling makes of a stream. -/
def round (base : Int) (stream : Stream) : Stream := (stream.assign base).1.resolve.1

namespace Regular

variable {stream : Stream} (h : stream.Regular) (base : Int)

include h

theorem assign :
  (stream.assign base).1.Regular
  := by
  apply h.of_sameShape (assign_sameShape stream base)
  apply (assignFrom_chunks base stream.chunks stream.targets).2 h.fits

/-- Encoding all records succeeds. -/
theorem resolve_eq :
  stream.resolve
    = ({ stream with chunks := stream.chunks.map (·.encoded stream.targets) },
      .ok (stream.chunks.map (·.encoded stream.targets) != stream.chunks))
  := by
  rw [resolve, encodeRecords_eq h.fits]

/-- A round assigns addresses and encodes every record for them. -/
theorem round_eq :
  round base stream
    = { (stream.assign base).1 with
        chunks := (stream.assign base).1.chunks.map
          (·.encoded (stream.assign base).1.targets) }
  := by
  rw [round, (h.assign base).resolve_eq]

/-- A round keeps a stream regular. -/
theorem round :
  (round base stream).Regular
  := by
  apply (h.assign base).of_sameShape (resolve_sameShape _)
  rw [(h.assign base).resolve_eq]
  intro chunk hchunk
  obtain ⟨old, hold, rfl⟩ := List.mem_map.mp hchunk
  apply ((h.assign base).fits old hold).encoded

/-- Any number of rounds keeps a stream regular. -/
theorem rounds (n : Nat) :
  ((Stream.round base)^[n] stream).Regular
  := by
  induction n with
  | zero => exact h
  | succ n ih =>
    rw [Function.iterate_succ_apply']
    apply ih.round

/-- A round makes no stream shorter. -/
theorem chunksLength_le_round :
  chunksLength stream.chunks ≤ chunksLength (Stream.round base stream).chunks
  := by
  rw [← chunksLength_assign stream base, h.round_eq base]
  apply chunksLength_le_encoded (h.assign base).fits

/-- Every record stays in its place, and is no shorter after a round than before. -/
theorem record_round {i : Nat} {r : Record} (hr : stream.chunks[i]? = some (.record r)) :
  ∃ r', (Stream.round base stream).chunks[i]? = some (.record r') ∧ r'.kind = r.kind
    ∧ r'.target = r.target ∧ r.bytes.length ≤ r'.bytes.length
  := by
  obtain ⟨r', hr', hkind, htarget, hwidth⟩ := record_assign base hr
  have hlonger := (Record.Fits.encode ((h.assign base).fits _ (List.mem_of_getElem? hr'))
    (targetAddress (stream.assign base).1.targets r'.target)).1
  rw [h.round_eq base, List.getElem?_map, hr', Option.map_some]
  exact ⟨_, rfl, hkind, htarget, hwidth.ge.trans hlonger⟩

end Regular

theorem lastLength_eq_of_sameShape {a b : Stream} (h : SameShape a b) :
  lastLength b.chunks = lastLength a.chunks
  := by
  have hskeleton (chunks : List Chunk) :
      lastLength (chunks.map Chunk.skeleton) = lastLength chunks := by
    rw [lastLength, List.map_map, lastLength]
    congr 2
    funext chunk
    cases chunk <;> rfl
  rw [← hskeleton, ← h.chunks, hskeleton]

/-- A round keeps the shape of a stream. -/
theorem round_sameShape (base : Int) (stream : Stream) :
  SameShape stream (round base stream)
  := (assign_sameShape stream base).trans (resolve_sameShape _)

/-- A round that leaves the stream as long as it was is followed by one that changes nothing. -/
theorem Regular.round_fixed {stream : Stream} (h : stream.Regular) {base : Int}
    (hlength : chunksLength (Stream.round base stream).chunks = chunksLength stream.chunks) :
  ((Stream.round base stream).assign base).2 = false
    ∧ (Stream.round base stream).resolve.2 = .ok false
  := by
  have hassigned := h.assign base
  rw [h.round_eq base, ← chunksLength_assign stream base] at hlength
  have hwidths := length_encoded_of_chunksLength hassigned.fits hlength
  constructor
  · rw [h.round_eq base]
    apply assignFrom_of_standsAt
    intro i chunk hi
    rw [List.getElem?_map] at hi
    obtain ⟨old, hold, rfl⟩ := Option.map_eq_some_iff.mp hi
    have hinside : ∀ target ∈ marks stream.chunks, target < stream.targets.length := by
      intro target htarget
      have hplace := (List.getElem?_eq_some_iff.mp (h.placed target htarget)).1
      rwa [List.length_map] at hplace
    have hstands := assignFrom_standsAt base h.nodup hinside hold
    have hbefore : chunksLength (((stream.assign base).1.chunks.map
          (·.encoded (stream.assign base).1.targets)).take i)
        = chunksLength ((stream.assign base).1.chunks.take i) := by
      rw [← List.map_take, chunksLength, chunksLength, List.map_map]
      congr 1
      apply List.map_congr_left
      intro chunk hchunk
      apply hwidths chunk (List.mem_of_mem_take hchunk)
    rw [hbefore]
    -- encoding a record leaves its address alone
    cases old <;> exact hstands
  · rw [(h.round base).resolve_eq, h.round_eq base]
    have hagain : ((stream.assign base).1.chunks.map
          (·.encoded (stream.assign base).1.targets)).map
            (·.encoded (stream.assign base).1.targets)
        = (stream.assign base).1.chunks.map (·.encoded (stream.assign base).1.targets) := by
      rw [List.map_map]
      apply List.map_congr_left
      intro chunk hchunk
      apply Chunk.encoded_encoded (hwidths chunk hchunk)
    simp only [hagain, bne_self_eq_false]

/-- As many rounds as the stream may still grow, and two more, settle it. -/
theorem settleRounds_ok {base : Int} (limit : Nat) {rounds : Nat} {stream : Stream}
    (h : stream.Regular)
    (hrounds : lastLength stream.chunks + 2 ≤ chunksLength stream.chunks + rounds) :
  (settleRounds base limit rounds stream).2 = .ok ()
  := by
  have hlast := chunksLength_le_lastLength h.fits
  induction rounds generalizing stream with
  | zero => omega
  | succ rounds ih =>
    rw [settleRounds_succ, (h.assign base).resolve_eq, ← h.round_eq base]
    dsimp only
    split_ifs
    · have hlonger := h.chunksLength_le_round base
      have hroom := chunksLength_le_lastLength (h.round base).fits
      have hshape := lastLength_eq_of_sameShape (round_sameShape base stream)
      by_cases hlength : chunksLength (round base stream).chunks = chunksLength stream.chunks
      · obtain ⟨hmoved, hresized⟩ := h.round_fixed hlength
        obtain ⟨rest, rfl⟩ : ∃ rest, rounds = rest + 1 := Nat.exists_eq_add_one.mpr (by omega)
        rw [settleRounds_of_fixed _ _ hmoved hresized]
      · apply ih (h.round base) _ hroom
        omega
    · rfl

/-- Rounds of settling do not fail on a record: they end with all settled, or for want of more
rounds. -/
theorem settleRounds_eq {stream : Stream} (h : stream.Regular) (base : Int) (limit rounds : Nat) :
  ∃ n ≤ rounds, (settleRounds base limit rounds stream).1 = (round base)^[n] stream
    ∧ ((settleRounds base limit rounds stream).2 = .ok ()
      ∨ (settleRounds base limit rounds stream).2 = .error (.stillChanging limit))
  := by
  induction rounds generalizing stream with
  | zero =>
    use 0, le_rfl, rfl
    right
    rfl
  | succ rounds ih =>
    rw [settleRounds_succ, (h.assign base).resolve_eq, ← h.round_eq base]
    dsimp only
    split_ifs
    · obtain ⟨n, hn, hstream, hresult⟩ := ih (h.round base)
      use n + 1, Nat.succ_le_succ hn
      rw [Function.iterate_succ_apply]
      exact ⟨hstream, hresult⟩
    · use 1, Nat.succ_le_succ rounds.zero_le, rfl
      left
      rfl

theorem Regular.settle {stream : Stream} (h : stream.Regular) (base : Int) (limit : Nat) :
  (stream.settle base limit).1.Regular
  := by
  rw [Stream.settle]
  split
  · exact h
  · obtain ⟨n, _, hstream, _⟩ := settleRounds_eq h base limit limit
    rw [hstream]
    apply h.rounds

/-- What the operations on streams build is regular. -/
theorem Built.regular {stream : Stream} (built : Built stream) :
  stream.Regular
  := by
  induction built with
  | empty => exact ⟨List.nodup_nil, nofun, nofun⟩
  | code bytes _ ih => apply ih.code
  | push v _ ih => apply ih.code
  | newTarget _ ih => apply ih.newTarget
  | place target state hstate hfree _ ih => apply ih.place hstate hfree
  | jump opcode target _ _ ih => apply ih.addRecord target rfl
  | offset target _ _ ih => apply ih.addRecord target rfl
  | stringOffset target _ _ ih => apply ih.addRecord target rfl
  | settle base limit _ ih => apply ih.settle

/-! ### How many rounds are enough -/

/-- The number of jumps in a stream. -/
def jumpCount (stream : Stream) : Nat :=
  stream.chunks.countP fun
    | .record { kind := .jump _, .. } => true
    | _ => false

/-- The number of pushes of target addresses in a stream. -/
def offsetCount (stream : Stream) : Nat :=
  stream.chunks.countP fun
    | .record { kind := .offset, .. } => true
    | _ => false

/-- A jump can grow by one byte, a push of a target's address by three. -/
theorem Regular.lastLength_le {stream : Stream} (h : stream.Regular) :
  lastLength stream.chunks
    ≤ chunksLength stream.chunks + (stream.jumpCount + 3 * stream.offsetCount)
  := by
  have hfits := h.fits
  rw [jumpCount, offsetCount]
  generalize stream.chunks = chunks at hfits ⊢
  induction chunks with
  | nil => exact le_rfl
  | cons chunk rest ih =>
    obtain ⟨hchunk, hrest⟩ := List.forall_mem_cons.mp hfits
    have := ih hrest
    have hcons : lastLength (chunk :: rest) = chunk.lastWidth + lastLength rest := rfl
    rw [hcons, chunksLength_cons, List.countP_cons, List.countP_cons]
    rcases chunk with bytes | ⟨kind, target, bytes, address⟩ | target
    · simp [Chunk.lastWidth, Chunk.bytes]
      omega
    · have hwidth := hchunk.1
      cases kind with
      | jump | offset | stringOffset =>
        simp [Chunk.lastWidth, Chunk.bytes, RecordKind.lastWidth, RecordKind.firstWidth] at hwidth ⊢
        omega
    · simp [Chunk.lastWidth, Chunk.bytes]
      omega

/-- With all targets placed, settling is nothing but its rounds. -/
theorem settle_of_placed {stream : Stream} (h : ∀ state ∈ stream.targets, state.placed = true)
    (base : Int) (limit : Nat) :
  stream.settle base limit = settleRounds base limit limit stream
  := by
  have hnone : stream.targets.findIdx? (!·.placed) = none := by
    rw [List.findIdx?_eq_none_iff]
    intro state hstate
    rw [h state hstate]
    rfl
  rw [settle, hnone]

/-- On a stream whose targets have all been placed, settling performs rounds in which no record
gets shorter, and one round for every byte that a record can grow by and two more are enough. -/
theorem settle_ends {stream : Stream} (built : Built stream)
    (placed : ∀ state ∈ stream.targets, state.placed = true) (base : Int) :
  (∀ limit, ∃ n ≤ limit, (stream.settle base limit).1 = (round base)^[n] stream)
    ∧ (∀ n r, .record r ∈ (((round base)^[n] stream).assign base).1.chunks →
        r.bytes.length
          ≤ (r.encode (targetAddress (((round base)^[n] stream).assign base).1.targets
              r.target)).length)
    ∧ (∀ (n i : Nat) (r : Record), ((round base)^[n] stream).chunks[i]? = some (.record r) →
        ∃ r', ((round base)^[n + 1] stream).chunks[i]? = some (.record r') ∧ r'.kind = r.kind
          ∧ r'.target = r.target ∧ r.bytes.length ≤ r'.bytes.length)
    ∧ (∀ limit address before after,
        (stream.settle base limit).2 ≠ .error (.shrinkingRecord address before after))
    ∧ ∀ limit, stream.jumpCount + 3 * stream.offsetCount + 2 ≤ limit →
        (stream.settle base limit).2 = .ok ()
  := by
  have h := built.regular
  refine ⟨?_, ?_, ?_, ?_, ?_⟩
  · intro limit
    rw [settle_of_placed placed]
    obtain ⟨n, hn, hstream, _⟩ := settleRounds_eq h base limit limit
    use n, hn, hstream
  · intro n r hr
    apply (Record.Fits.encode (((h.rounds base n).assign base).fits _ hr) _).1
  · intro n i r hr
    rw [Function.iterate_succ_apply']
    apply (h.rounds base n).record_round base hr
  · intro limit address before after herror
    obtain ⟨_, _, _, hok | hchanging⟩ := settleRounds_eq h base limit limit
    · rw [settle_of_placed placed, hok] at herror
      cases herror
    · rw [settle_of_placed placed, hchanging] at herror
      cases herror
  · intro limit hlimit
    rw [settle_of_placed placed]
    have := h.lastLength_le
    apply settleRounds_ok limit h
    omega

/-- Two jumps, of which the inner one makes the outer one long, and a push of where it leads. -/
def nestedJumps : Stream :=
  ((((((({} : Stream).newTarget.2).newTarget.2).jump 0x04 1).jump 0x0a 0).code
    (List.replicate 61 0x35)).place 0).offset 1 |>.place 1

/-- The two jumps and the push settle within seven rounds. -/
theorem settle_ends_nestedJumps :
  (∀ state ∈ nestedJumps.targets, state.placed = true)
    ∧ nestedJumps.jumpCount + 3 * nestedJumps.offsetCount + 2 ≤ 7
    ∧ (nestedJumps.settle 100 7).2 = .ok ()
  := by
  have built : Built nestedJumps := by
    apply Built.place 1 {} (by decide) rfl
    apply Built.offset 1 (by decide)
    apply Built.place 0 {} (by decide) rfl
    apply Built.code
    apply Built.jump _ 0 (by decide)
    apply Built.jump _ 1 (by decide)
    apply Built.newTarget
    apply Built.newTarget Built.empty
  have placed : ∀ state ∈ nestedJumps.targets, state.placed = true := by decide
  have rounds : nestedJumps.jumpCount + 3 * nestedJumps.offsetCount + 2 ≤ 7 := by decide
  exact ⟨placed, rounds, (settle_ends built placed 100).2.2.2.2 7 rounds⟩

end Stream

end SpinHub
