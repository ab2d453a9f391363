import Mathlib
import SpinHub.Bytecode.Stream
import SpinHub.Proofs.PushForms

/-!
# Settled streams

A stream on which `settle` succeeds is a fixed point of both passes: the addresses of records
and targets are the numbers of bytes in front of them, and every record holds the encoding of
what it stands for. From this a reader of the bytes finds every target again.
-/

namespace SpinHub

/-! ### Bytes in front of a chunk -/

/-- The number of bytes that chunks stand for. -/
def chunksLength (chunks : List Chunk) : Nat := total (chunks.map fun c => c.bytes.length)

@[simp]
theorem chunksLength_nil :
  chunksLength [] = 0
  := rfl

@[simp]
theorem chunksLength_cons (chunk : Chunk) (rest : List Chunk) :
  chunksLength (chunk :: rest) = chunk.bytes.length + chunksLength rest
  := rfl

/-- The bytes of chunks are as many as the chunks stand for. -/
theorem length_flatMap_bytes (chunks : List Chunk) :
  (chunks.flatMap Chunk.bytes).length = chunksLength chunks
  := by
  induction chunks with
  | nil => rfl
  | cons chunk rest ih =>
    rw [List.flatMap_cons, List.length_append, ih, chunksLength_cons]

/-- The chunks in front stand for no more bytes than all. -/
theorem chunksLength_take_le (chunks : List Chunk) (i : Nat) :
  chunksLength (chunks.take i) ≤ chunksLength chunks
  := by
  induction chunks generalizing i with
  | nil => simp
  | cons chunk rest ih =>
    cases i with
    | zero => simp
    | succ i =>
      have := ih i
      rw [List.take_succ_cons, chunksLength_cons, chunksLength_cons]
      omega

/-- The bytes of a chunk stand behind the bytes of the chunks in front of it. -/
theorem bytes_prefix_drop {chunks : List Chunk} {i : Nat} {chunk : Chunk}
    (h : chunks[i]? = some chunk) :
  chunk.bytes <+: (chunks.flatMap Chunk.bytes).drop (chunksLength (chunks.take i))
  := by
  have split : chunks = chunks.take i ++ chunk :: chunks.drop (i + 1) := by
    obtain ⟨hi, rfl⟩ := List.getElem?_eq_some_iff.mp h
    rw [List.getElem_cons_drop, List.take_append_drop]
  have front := length_flatMap_bytes (chunks.take i)
  conv =>
    rhs
    rw [split]
  rw [List.flatMap_append, ← split, List.drop_left' front, List.flatMap_cons]
  apply List.prefix_append

namespace Stream

/-- The bytes in front of the chunk at a place. -/
def lengthBefore (stream : Stream) (i : Nat) : Nat := chunksLength (stream.chunks.take i)

/-! ### Building streams -/

/-- The streams that the operations on streams build. A target is placed at most once. -/
inductive Built : Stream → Prop where
  | empty : Built {}
  | code {stream : Stream} (bytes : Bytes) : Built stream → Built (stream.code bytes)
  | push {stream : Stream} (v : Word) : Built stream → Built (stream.push v)
  | newTarget {stream : Stream} : Built stream → Built stream.newTarget.2
  | place {stream : Stream} (target : Target) (state : TargetState) :
      stream.targets[target]? = some state → state.placed = false → Built stream →
        Built (stream.place target)
  | jump {stream : Stream} (opcode : UInt8) (target : Target) :
      target < stream.targets.length → Built stream → Built (stream.jump opcode target)
  | offset {stream : Stream} (target : Target) :
      target < stream.targets.length → Built stream → Built (stream.offset target)
  | stringOffset {stream : Stream} (target : Target) :
      target < stream.targets.length → Built stream → Built (stream.stringOffset target)
  | settle {stream : Stream} (base : Int) (limit : Nat) :
      Built stream → Built (stream.settle base limit).1

/-! ### What settling leaves alone -/

end Stream

/-- A chunk without what settling changes in it. -/
def Chunk.skeleton : Chunk → Chunk
  | .record r => .record { r with bytes := [], address := 0 }
  | chunk => chunk

namespace Stream

/-- Two streams with the same final bytes, marks, placed targets, and kinds and targets of
records. -/
structure SameShape (a b : Stream) : Prop where
  chunks : a.chunks.map Chunk.skeleton = b.chunks.map Chunk.skeleton
  placed : a.targets.map (·.placed) = b.targets.map (·.placed)

theorem SameShape.refl (stream : Stream) :
  SameShape stream stream
  := ⟨rfl, rfl⟩

theorem SameShape.trans {a b c : Stream} (hab : SameShape a b) (hbc : SameShape b c) :
  SameShape a c
  := ⟨hab.chunks.trans hbc.chunks, hab.placed.trans hbc.placed⟩

theorem map_placed_modify (targets : List TargetState) (target : Target) (address : Int) :
  (targets.modify target fun t => { t with address }).map (·.placed) = targets.map (·.placed)
  := by
  apply List.ext_getElem?
  intro i
  rw [List.getElem?_map, List.getElem?_map, List.getElem?_modify]
  split_ifs
  · cases targets[i]? <;> rfl
  · cases targets[i]? <;> rfl

/-- Assigning addresses changes neither the final bytes nor what is placed. -/
theorem assignFrom_sameShape (address : Int) (chunks : List Chunk) (targets : List TargetState) :
  (assignFrom address chunks targets).1.map Chunk.skeleton = chunks.map Chunk.skeleton
    ∧ (assignFrom address chunks targets).2.1.map (·.placed) = targets.map (·.placed)
  := by
  induction chunks generalizing address targets with
  | nil => exact ⟨rfl, rfl⟩
  | cons chunk rest ih =>
    cases chunk with
    | code bytes =>
      obtain ⟨hchunks, hplaced⟩ := ih (address + bytes.length) targets
      simp only [assignFrom, List.map_cons, hchunks, hplaced, and_self]
    | record r =>
      obtain ⟨hchunks, hplaced⟩ := ih (address + r.bytes.length) targets
      simp only [assignFrom, List.map_cons, hchunks, hplaced, Chunk.skeleton, and_self]
    | mark target =>
      obtain ⟨hchunks, hplaced⟩ :=
        ih address (targets.modify target fun t => { t with address })
      simp only [assignFrom, List.map_cons, hchunks, hplaced, map_placed_modify, and_self]

/-- Encoding records changes none but their own bytes. -/
theorem encodeRecords_sameShape (targets : List TargetState) (chunks : List Chunk) :
  (encodeRecords targets chunks).1.map Chunk.skeleton = chunks.map Chunk.skeleton
  := by
  induction chunks with
  | nil => rfl
  | cons chunk rest ih =>
    cases chunk with
    | code bytes => simp only [encodeRecords, List.map_cons, ih]
    | record r =>
      rw [encodeRecords]
      split_ifs
      · rfl
      · simp only [List.map_cons, ih, Chunk.skeleton]
    | mark target => simp only [encodeRecords, List.map_cons, ih]

/-- Assigning addresses keeps the shape of a stream. -/
theorem assign_sameShape (stream : Stream) (base : Int) :
  SameShape stream (stream.assign base).1
  := by
  obtain ⟨hchunks, hplaced⟩ := assignFrom_sameShape base stream.chunks stream.targets
  exact ⟨hchunks.symm, hplaced.symm⟩

/-- Encoding the records of a stream keeps its shape. -/
theorem resolve_sameShape (stream : Stream) :
  SameShape stream stream.resolve.1
  := ⟨(encodeRecords_sameShape stream.targets stream.chunks).symm, rfl⟩

/-- One round: both passes, and the next round unless neither changed anything. -/
theorem settleRounds_succ (base : Int) (limit rounds : Nat) (stream : Stream) :
  settleRounds base limit (rounds + 1) stream
    = match (stream.assign base).1.resolve.2 with
      | .error cause => ((stream.assign base).1.resolve.1, .error cause)
      | .ok resized =>
        if (stream.assign base).2 || resized then
          settleRounds base limit rounds (stream.assign base).1.resolve.1
        else ((stream.assign base).1.resolve.1, .ok ())
  := by
  rw [settleRounds]
  rcases stream.assign base with ⟨assigned, moved⟩
  rcases h : assigned.resolve with ⟨resolved, cause | resized⟩
  · simp only [h]
  · simp only [h]

/-- However many rounds are made, the shape of the stream stays. -/
theorem settleRounds_sameShape (base : Int) (limit rounds : Nat) (stream : Stream) :
  SameShape stream (settleRounds base limit rounds stream).1
  := by
  induction rounds generalizing stream with
  | zero => apply SameShape.refl
  | succ rounds ih =>
    have round := (assign_sameShape stream base).trans (resolve_sameShape _)
    rw [settleRounds_succ]
    split
    · exact round
    · split_ifs
      · apply round.trans (ih _)
      · exact round

/-- Settling, successful or not, changes only addresses and the bytes of records. -/
theorem settle_sameShape (stream : Stream) (base : Int) (limit : Nat) :
  SameShape stream (stream.settle base limit).1
  := by
  rw [settle]
  split
  · apply SameShape.refl
  · apply settleRounds_sameShape

/-! ### Built streams are well formed -/

/-- Every placed target has a mark, and every record has a target of the stream. -/
structure WellFormed (stream : Stream) : Prop where
  marked : ∀ {target : Target} {state : TargetState}, stream.targets[target]? = some state →
    state.placed = true → .mark target ∈ stream.chunks
  targeted : ∀ {r : Record}, .record r ∈ stream.chunks → r.target < stream.targets.length

/-- Appending code adds no marks and no records. -/
theorem mem_appendCode {chunk : Chunk} (hcode : ∀ run, chunk ≠ .code run) (chunks : List Chunk)
    (bytes : Bytes) :
  chunk ∈ appendCode chunks bytes ↔ chunk ∈ chunks
  := by
  fun_induction appendCode chunks bytes with
  | case1 => rfl
  | case2 => simp only [List.mem_singleton, hcode, List.not_mem_nil]
  | case3 => simp only [List.mem_singleton, hcode]
  | case4 bytes chunk' rest _ ih => simp only [List.mem_cons, ih]

/-- The marks of chunks are those of their skeletons. -/
theorem mark_mem_skeleton {chunks : List Chunk} {target : Target} :
  .mark target ∈ chunks.map Chunk.skeleton ↔ .mark target ∈ chunks
  := by
  constructor
  · intro h
    obtain ⟨chunk, hmem, heq⟩ := List.mem_map.mp h
    cases chunk with
    | code => cases heq
    | record => cases heq
    | mark =>
      cases heq
      exact hmem
  · intro h
    apply List.mem_map.mpr
    use .mark target, h
    rfl

/-- The targets of records are those of their skeletons. -/
theorem record_mem_skeleton {chunks : List Chunk} {target : Target} :
  (∃ r, .record r ∈ chunks.map Chunk.skeleton ∧ r.target = target)
    ↔ ∃ r, .record r ∈ chunks ∧ r.target = target
  := by
  constructor
  · rintro ⟨r, h, rfl⟩
    obtain ⟨chunk, hmem, heq⟩ := List.mem_map.mp h
    cases chunk with
    | code => cases heq
    | record r' =>
      use r', hmem
      cases heq
      rfl
    | mark => cases heq
  · rintro ⟨r, h, rfl⟩
    use { r with bytes := [], address := 0 }
    constructor
    · apply List.mem_map.mpr
      use .record r, h
      rfl
    · rfl

theorem SameShape.length_targets {a b : Stream} (h : SameShape a b) :
  a.targets.length = b.targets.length
  := by
  simpa using congrArg List.length h.placed

/-- Whether a stream is well formed is a matter of its shape. -/
theorem WellFormed.of_sameShape {a b : Stream} (h : SameShape a b) (wf : WellFormed a) :
  WellFormed b
  := by
  constructor
  · intro target state hstate hplaced
    have flag : (a.targets.map (·.placed))[target]? = some true := by
      rw [h.placed, List.getElem?_map, hstate, Option.map_some, hplaced]
    rw [List.getElem?_map] at flag
    obtain ⟨old, hold, hflag⟩ := Option.map_eq_some_iff.mp flag
    rw [← mark_mem_skeleton, ← h.chunks, mark_mem_skeleton]
    apply wf.marked hold hflag
  · intro r hr
    obtain ⟨old, hold, htarget⟩ : ∃ old, .record old ∈ a.chunks ∧ old.target = r.target := by
      rw [← record_mem_skeleton, h.chunks, record_mem_skeleton]
      use r
    rw [← htarget, ← h.length_targets]
    apply wf.targeted hold

theorem WellFormed.code {stream : Stream} (wf : WellFormed stream) (bytes : Bytes) :
  WellFormed (stream.code bytes)
  := by
  constructor
  · intro target state hstate hplaced
    apply (mem_appendCode (by simp) _ _).mpr
    apply wf.marked hstate hplaced
  · intro r hr
    apply wf.targeted ((mem_appendCode (by simp) _ _).mp hr)

/-- A record may be added for a target of the stream. -/
theorem WellFormed.addRecord {stream : Stream} (wf : WellFormed stream) (kind : RecordKind)
    (bytes : Bytes) {target : Target} (htarget : target < stream.targets.length) :
  WellFormed (stream.addRecord kind target bytes)
  := by
  constructor
  · intro mark state hstate hplaced
    apply List.mem_append_left
    apply wf.marked hstate hplaced
  · intro r hr
    rcases List.mem_append.mp hr with hr | hr
    · apply wf.targeted hr
    · cases List.mem_singleton.mp hr
      exact htarget

theorem WellFormed.newTarget {stream : Stream} (wf : WellFormed stream) :
  WellFormed stream.newTarget.2
  := by
  constructor
  · intro target state hstate hplaced
    rw [Stream.newTarget, List.getElem?_append] at hstate
    split_ifs at hstate
    · apply wf.marked hstate hplaced
    · obtain rfl := List.mem_singleton.mp (List.mem_of_getElem? hstate)
      cases hplaced
  · intro r hr
    rw [Stream.newTarget, List.length_append]
    apply Nat.lt_add_right _ (wf.targeted hr)

/-- A target that is placed gets its mark. -/
theorem WellFormed.place {stream : Stream} (wf : WellFormed stream) (target : Target) :
  WellFormed (stream.place target)
  := by
  constructor
  · intro mark state hstate hplaced
    by_cases heq : target = mark
    · subst heq
      apply List.mem_append_right
      apply List.mem_singleton_self
    · apply List.mem_append_left
      apply wf.marked _ hplaced
      simpa only [Stream.place, List.getElem?_modify_ne _ _ heq] using hstate
  · intro r hr
    rcases List.mem_append.mp hr with hr | hr
    · simpa only [Stream.place, List.length_modify] using wf.targeted hr
    · cases List.mem_singleton.mp hr

/-- What the operations on streams build is well formed. -/
theorem Built.wellFormed {stream : Stream} (built : Built stream) :
  WellFormed stream
  := by
  induction built with
  | empty => exact ⟨nofun, nofun⟩
  | code bytes _ ih => apply ih.code
  | push v _ ih => apply ih.code
  | newTarget _ ih => apply ih.newTarget
  | place target _ _ _ _ ih => apply ih.place
  | jump opcode target htarget _ ih => apply ih.addRecord _ _ htarget
  | offset target htarget _ ih => apply ih.addRecord _ _ htarget
  | stringOffset target htarget _ ih => apply ih.addRecord _ _ htarget
  | settle base limit _ ih => apply ih.of_sameShape (settle_sameShape _ _ _)

/-! ### Fixed points of the passes -/

/-- Giving a target the address it has changes nothing. -/
theorem modify_address_self {targets : List TargetState} {target : Target} {address : Int}
    (h : targetAddress targets target = address) :
  (targets.modify target fun t => { t with address }) = targets
  := by
  apply List.ext_getElem?
  intro i
  rw [List.getElem?_modify]
  split_ifs with hi
  · subst hi h
    cases hstate : targets[target]? with
    | none => rfl
    | some state => simp [targetAddress, hstate]
  · cases targets[i]? <;> rfl

/-- Whether the record or the target of a chunk has a given address. -/
def StandsAt (targets : List TargetState) (address : Int) : Chunk → Prop
  | .code _ => True
  | .record r => r.address = address
  | .mark target => targetAddress targets target = address

/-- If assigning addresses changes none, every record and every target has the address that
its place gives it. -/
theorem assignFrom_fixed {address : Int} {chunks : List Chunk} {targets : List TargetState}
    (h : (assignFrom address chunks targets).2.2 = false) :
  assignFrom address chunks targets = (chunks, targets, false)
    ∧ ∀ i chunk, chunks[i]? = some chunk →
        StandsAt targets (address + chunksLength (chunks.take i)) chunk
  := by
  induction chunks generalizing address targets with
  | nil => exact ⟨rfl, nofun⟩
  | cons first rest ih =>
    -- The first chunk stands at `address`, and the others behind it.
    have places (hfirst : StandsAt targets address first)
        (hrest : ∀ i chunk, rest[i]? = some chunk →
          StandsAt targets (address + first.bytes.length + chunksLength (rest.take i)) chunk) :
        ∀ i chunk, (first :: rest)[i]? = some chunk →
          StandsAt targets (address + chunksLength ((first :: rest).take i)) chunk := by
      rintro (_ | i) chunk hchunk
      · cases hchunk
        rw [List.take_zero, chunksLength_nil, Int.natCast_zero, Int.add_zero]
        exact hfirst
      · rw [List.take_succ_cons, chunksLength_cons, Int.natCast_add, ← Int.add_assoc]
        apply hrest i chunk hchunk
    cases first with
    | code bytes =>
      obtain ⟨hfix, hplaces⟩ := @ih (address + bytes.length) _ h
      use by simp only [assignFrom, hfix]
      apply places trivial hplaces
    | record r =>
      simp only [assignFrom, Bool.or_eq_false_iff, bne_eq_false_iff_eq] at h
      obtain ⟨rfl, h⟩ := h
      obtain ⟨hfix, hplaces⟩ := ih h
      use by simp only [assignFrom, hfix, bne_self_eq_false, Bool.or_false]
      apply places rfl hplaces
    | mark target =>
      simp only [assignFrom, Bool.or_eq_false_iff, bne_eq_false_iff_eq] at h
      obtain ⟨haddress, h⟩ := h
      rw [modify_address_self haddress] at h
      obtain ⟨hfix, hplaces⟩ := ih h
      use by simp only [assignFrom, modify_address_self haddress, hfix, haddress,
        bne_self_eq_false, Bool.or_false]
      apply places haddress
      simpa only [Chunk.bytes, List.length_nil, Int.natCast_zero, Int.add_zero] using hplaces

/-- If encoding the records changes none, every record holds its encoding. -/
theorem encodeRecords_fixed {targets : List TargetState} {chunks : List Chunk}
    (h : (encodeRecords targets chunks).2 = .ok false) :
  encodeRecords targets chunks = (chunks, .ok false)
    ∧ ∀ r, .record r ∈ chunks → r.encode (targetAddress targets r.target) = r.bytes
  := by
  induction chunks with
  | nil => exact ⟨rfl, nofun⟩
  | cons chunk rest ih =>
    cases chunk with
    | code bytes =>
      obtain ⟨hfix, hrecords⟩ := ih h
      refine ⟨by simp only [encodeRecords, hfix], ?_⟩
      intro r hr
      apply hrecords r
      simpa using hr
    | record record =>
      rw [encodeRecords] at h ⊢
      split_ifs at h ⊢ with hshort
      rcases hrest : encodeRecords targets rest with ⟨rest', cause | resized⟩
      · rw [hrest] at h
        cases h
      · rw [hrest] at h
        simp only [Except.map, Except.ok.injEq, Bool.or_eq_false_iff, bne_eq_false_iff_eq] at h
        obtain ⟨hbytes, rfl⟩ := h
        obtain ⟨hfix, hrecords⟩ := ih (by rw [hrest])
        rw [hrest] at hfix
        cases hfix
        refine ⟨by simp [hbytes, Except.map], ?_⟩
        intro r hr
        rcases List.mem_cons.mp hr with hr | hr
        · cases hr
          exact hbytes
        · apply hrecords r hr
    | mark target =>
      obtain ⟨hfix, hrecords⟩ := ih h
      refine ⟨by simp only [encodeRecords, hfix], ?_⟩
      intro r hr
      apply hrecords r
      simpa using hr

/-- If no address changed, nothing did. -/
theorem assign_fixed {stream : Stream} {base : Int} (h : (stream.assign base).2 = false) :
  stream.assign base = (stream, false)
  := by
  rw [assign, (assignFrom_fixed h).1]

/-- If no record changed, nothing did. -/
theorem resolve_fixed {stream : Stream} (h : stream.resolve.2 = .ok false) :
  stream.resolve = (stream, .ok false)
  := by
  rw [resolve, (encodeRecords_fixed h).1]

/-- Rounds that succeed end in a stream that neither pass changes. -/
theorem settleRounds_fixed {base : Int} {limit rounds : Nat} {stream settled : Stream}
    (h : settleRounds base limit rounds stream = (settled, .ok ())) :
  (settled.assign base).2 = false ∧ settled.resolve.2 = .ok false
  := by
  induction rounds generalizing stream with
  | zero => cases h
  | succ rounds ih =>
    rw [settleRounds_succ] at h
    split at h
    · cases h
    · rename_i resized hresized
      split_ifs at h with hchanged
      · apply ih h
      · simp only [Bool.or_eq_true, not_or, Bool.not_eq_true] at hchanged
        obtain ⟨hmoved, rfl⟩ := hchanged
        rw [assign_fixed hmoved] at hresized h
        rw [resolve_fixed hresized] at h
        cases h
        exact ⟨hmoved, hresized⟩

/-- A stream that neither pass changes settles in one round. -/
theorem settleRounds_of_fixed {base : Int} {stream : Stream} (limit rounds : Nat)
    (hassign : (stream.assign base).2 = false) (hresolve : stream.resolve.2 = .ok false) :
  settleRounds base limit (rounds + 1) stream = (stream, .ok ())
  := by
  rw [settleRounds_succ, assign_fixed hassign, resolve_fixed hresolve]
  rfl

end Stream

/-! ### Reading records -/

/-- Reads the operand of a jump from the front of bytes: the displacement and the bytes used.
The top bit of the first byte tells the long form; both forms are in two's complement. -/
def jumpDisplacement? : Bytes → Option (Int × Nat)
  | [] => none
  | first :: rest =>
    if first.toNat < 128 then some (Int.bmod first.toNat 128, 1)
    else rest.head?.map fun second =>
      (Int.bmod ((first.toNat % 128) * 256 + second.toNat : Nat) 32768, 2)

/-- A displacement of seven bits is read back from one byte. -/
theorem jumpDisplacement_short {first : UInt8} {delta : Int} (rest : Bytes)
    (hfirst : (first.toNat : Int) = delta % (128 : Nat)) (hlow : -64 ≤ delta) (hhigh : delta ≤ 63) :
  jumpDisplacement? (first :: rest) = some (delta, 1)
  := by
  have short : first.toNat < 128 := by omega
  rw [jumpDisplacement?, if_pos short, hfirst, Int.emod_bmod,
    Int.bmod_eq_of_le (by omega) (by omega)]

/-- A displacement of fifteen bits is read back from two bytes. -/
theorem jumpDisplacement_long {first second : UInt8} {delta : Int} (rest : Bytes)
    (htop : 128 ≤ first.toNat)
    (hvalue : ((first.toNat % 128 * 256 + second.toNat : Nat) : Int) = delta % (32768 : Nat))
    (hlow : -16384 ≤ delta) (hhigh : delta ≤ 16383) :
  jumpDisplacement? (first :: second :: rest) = some (delta, 2)
  := by
  rw [jumpDisplacement?, if_neg (by omega), List.head?_cons, Option.map_some, hvalue,
    Int.emod_bmod, Int.bmod_eq_of_le (by omega) (by omega)]

/-- The operand of a jump is read back in either form, if the displacement fits in fifteen bits. -/
theorem jumpDisplacement_jumpOperand {delta : Int} (long : Bool) (hlow : -16384 ≤ delta)
    (hhigh : delta ≤ 16383) :
  jumpDisplacement? (jumpOperand delta long) = some (delta, (jumpOperand delta long).length)
  := by
  have hl := toNat_lowByte delta
  have hh := toNat_highByte delta
  have ht := toNat_or_topBit (highByte delta)
  unfold jumpOperand
  split_ifs with hpos hshort hnear
  · apply jumpDisplacement_short <;> omega
  · apply jumpDisplacement_long <;> omega
  · have hs := toNat_lowByte (delta + 128)
    apply jumpDisplacement_short <;> omega
  · apply jumpDisplacement_long <;> omega

/-- What a reader of a record's bytes finds, if the record's target has the given address. A
jump leads from the end of its record to the target if the displacement fits in two bytes. -/
def Record.Reads (r : Record) (target : Int) : Prop :=
  match r.kind with
  | .jump opcode => ∃ operand, r.bytes = opcode :: operand ∧
      ∀ delta, delta = target - (r.address + r.bytes.length) → -16384 ≤ delta → delta ≤ 16383 →
        jumpDisplacement? operand = some (delta, operand.length)
  | .offset => ∃ w, Push.decode? r.bytes = some (w, r.bytes.length) ∧ w.toInt = target
  | .stringOffset => 0 ≤ target → target < 32768 → ∃ high low, r.bytes = [0x87, high, low] ∧
      (high.toNat * 256 + low.toNat : Int) = 32768 + target

/-- A record that encodes the address of its target is read back as that address. -/
theorem Record.reads_of_encode {r : Record} {target : Int} (h : r.encode target = r.bytes)
    (hlow : -2147483648 ≤ target) (hhigh : target ≤ 2147483647) :
  r.Reads target
  := by
  rw [Record.encode] at h
  rw [Record.Reads]
  cases hkind : r.kind with
  | jump opcode =>
    simp only [hkind] at h
    refine ⟨_, h.symm, ?_⟩
    rintro delta rfl hnear hfar
    apply jumpDisplacement_jumpOperand _ hnear hfar
  | offset =>
    simp only [hkind] at h
    use BitVec.ofInt 32 target
    constructor
    · have := @Push.decode_encode (BitVec.ofInt 32 target) r.bytes.length [] nofun
      rw [List.append_nil] at this
      rwa [h] at this
    · rw [BitVec.toInt_ofInt, Int.bmod_eq_of_le (by omega) (by omega)]
  | stringOffset =>
    simp only [hkind] at h
    intro hpos hsmall
    refine ⟨_, _, h.symm, ?_⟩
    have hl := toNat_lowByte target
    have hh := toNat_highByte target
    have ht := toNat_or_topBit (highByte target)
    omega

namespace Stream

/-- Streams of one shape lack the same target, if any. -/
theorem findIdx_placed_of_sameShape {a b : Stream} (h : SameShape a b) :
  b.targets.findIdx? (!·.placed) = a.targets.findIdx? (!·.placed)
  := by
  have flags (stream : Stream) : stream.targets.findIdx? (!·.placed)
      = (stream.targets.map (·.placed)).findIdx? (!·) := by
    rw [List.findIdx?_map]
    rfl
  rw [flags, flags, h.placed]

/-- After settling succeeds, records and targets have the addresses of their places, the bytes
of every record lead a reader to its target, and settling again changes nothing. -/
theorem settle_reads_back {stream settled : Stream} {base : Int} {limit : Nat}
    (built : Built stream) (ok : stream.settle base limit = (settled, .ok ()))
    (hlow : -2147483648 ≤ base) (hhigh : base + settled.length ≤ 2147483647) :
  SameShape stream settled
    ∧ (∀ i r, settled.chunks[i]? = some (.record r) →
        r.address = base + settled.lengthBefore i
          ∧ r.bytes <+: settled.toBytes.drop (r.address - base).toNat
          ∧ r.target < settled.targets.length
          ∧ r.Reads (targetAddress settled.targets r.target))
    ∧ (∀ target < settled.targets.length, .mark target ∈ settled.chunks
        ∧ ∀ i, settled.chunks[i]? = some (.mark target) →
            targetAddress settled.targets target = base + settled.lengthBefore i)
    ∧ ∀ n, 1 ≤ n → settled.settle base n = (settled, .ok ())
  := by
  have shape : SameShape stream settled := by
    have := settle_sameShape stream base limit
    rwa [ok] at this
  have wf : WellFormed settled := built.wellFormed.of_sameShape shape
  rw [settle] at ok
  split at ok
  · cases ok
  rename_i hplaced
  obtain ⟨hassign, hresolve⟩ := settleRounds_fixed ok
  have places := (assignFrom_fixed hassign).2
  have encoded := (encodeRecords_fixed hresolve).2
  rw [← findIdx_placed_of_sameShape shape] at hplaced
  have marked : ∀ target < settled.targets.length, .mark target ∈ settled.chunks := by
    intro target htarget
    apply wf.marked (List.getElem?_eq_getElem htarget)
    have := List.findIdx?_eq_none_iff.mp hplaced _ (List.getElem_mem htarget)
    simpa using this
  have inside (target : Target) (htarget : target < settled.targets.length) :
      base ≤ targetAddress settled.targets target
        ∧ targetAddress settled.targets target ≤ base + settled.length := by
    obtain ⟨i, hi⟩ := List.mem_iff_getElem?.mp (marked target htarget)
    have := chunksLength_take_le settled.chunks i
    have hplace : targetAddress settled.targets target = _ := places i _ hi
    have hlength : settled.length = chunksLength settled.chunks := rfl
    omega
  refine ⟨shape, ?_, ?_, ?_⟩
  · intro i r hr
    have haddress : r.address = base + settled.lengthBefore i := places i _ hr
    have htarget := wf.targeted (List.mem_of_getElem? hr)
    obtain ⟨habove, hbelow⟩ := inside r.target htarget
    refine ⟨haddress, ?_, htarget, ?_⟩
    · have hindex : (r.address - base).toNat = settled.lengthBefore i := by omega
      rw [hindex]
      apply bytes_prefix_drop hr
    · apply Record.reads_of_encode (encoded r (List.mem_of_getElem? hr)) <;> omega
  · intro target htarget
    use marked target htarget
    intro i hi
    apply places i _ hi
  · intro n hn
    obtain ⟨rounds, rfl⟩ := Nat.exists_eq_succ_of_ne_zero (by omega : n ≠ 0)
    rw [settle, hplaced]
    apply settleRounds_of_fixed _ _ hassign hresolve

/-- A jump over a run of bytes that needs the long form, and a push of where it leads. -/
def farJump : Stream :=
  ((((({} : Stream).newTarget.2).jump 0x04 0).offset 0).code (List.replicate 70 0x35)).place 0

/-- The stream with a long jump settles, and its jump and its address are read back. -/
theorem settle_reads_back_farJump :
  (farJump.settle 20 64).2 = .ok ()
    ∧ ∀ (i : Nat) (r : Record), (farJump.settle 20 64).1.chunks[i]? = some (.record r) →
      r.Reads (targetAddress (farJump.settle 20 64).1.targets r.target)
  := by
  have ok : (farJump.settle 20 64).2 = .ok () := by decide +kernel
  have built : Built farJump := by
    apply Built.place 0 {} (by decide) rfl
    apply Built.code
    apply Built.offset 0 (by decide)
    apply Built.jump _ 0 (by decide)
    apply Built.newTarget Built.empty
  use ok
  intro i r hr
  have := settle_reads_back built (Prod.ext rfl ok) (by decide) (by decide +kernel)
  exact (this.2.1 i r hr).2.2.2

end Stream

end SpinHub
