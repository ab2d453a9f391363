import Mathlib
import SpinHub.Proofs.SettledStreams

/-!
# How far jumps reach

The long operand of a jump has fifteen bits. A reader finds the target of a jump exactly if the
bytes between them can be counted by the operand. They can in every stream of at most 16384 bytes;
settling does not look, so in a longer one a jump may lead somewhere else.
-/

namespace SpinHub

/-- The bytes from the end of a record to its target, negative if the target stands in front. -/
def Record.displacement (r : Record) (target : Int) : Int := target - (r.address + r.bytes.length)

/-- The displacements that the operand of a jump can hold. -/
def InReach (delta : Int) : Prop := -16384 ≤ delta ∧ delta ≤ 16383

instance (delta : Int) : Decidable (InReach delta) := inferInstanceAs (Decidable (_ ∧ _))

/-- No operand is read as a displacement beyond fifteen bits. -/
theorem inReach_of_jumpDisplacement {operand : Bytes} {delta : Int} {used : Nat}
    (h : jumpDisplacement? operand = some (delta, used)) :
  InReach delta
  := by
  cases operand with
  | nil => cases h
  | cons first rest =>
    rw [jumpDisplacement?] at h
    split_ifs at h
    · cases h
      have hlow := @Int.le_bmod first.toNat 128 (by decide)
      have hhigh := @Int.bmod_lt first.toNat 128 (by decide)
      exact ⟨by omega, by omega⟩
    · obtain ⟨second, _, hvalue⟩ := Option.map_eq_some_iff.mp h
      obtain ⟨rfl, _⟩ := Prod.mk.inj hvalue
      have hlow := @Int.le_bmod ((first.toNat % 128) * 256 + second.toNat : Nat) 32768 (by decide)
      have hhigh := @Int.bmod_lt ((first.toNat % 128) * 256 + second.toNat : Nat) 32768 (by decide)
      exact ⟨by omega, by omega⟩

/-- The operand of a jump is read as the displacement it was made for exactly if that can be
reached. -/
theorem jumpDisplacement_jumpOperand_iff (delta : Int) (long : Bool) :
  jumpDisplacement? (jumpOperand delta long) = some (delta, (jumpOperand delta long).length)
    ↔ InReach delta
  := by
  constructor
  · intro h
    apply inReach_of_jumpDisplacement h
  · rintro ⟨hlow, hhigh⟩
    apply jumpDisplacement_jumpOperand long hlow hhigh

namespace Stream

/-- The bytes up to the end of a chunk are those in front of it and its own. -/
theorem lengthBefore_succ {stream : Stream} {i : Nat} {chunk : Chunk}
    (h : stream.chunks[i]? = some chunk) :
  stream.lengthBefore (i + 1) = stream.lengthBefore i + chunk.bytes.length
  := by
  obtain ⟨hi, rfl⟩ := List.getElem?_eq_some_iff.mp h
  rw [lengthBefore, lengthBefore, chunksLength, chunksLength, List.take_succ_eq_append_getElem hi,
    List.map_append, total_eq_sum, total_eq_sum, List.sum_append]
  rfl

theorem lengthBefore_le (stream : Stream) (i : Nat) :
  stream.lengthBefore i ≤ stream.length
  := chunksLength_take_le stream.chunks i

/-- A stream that settling has left without a failure: records and targets have the addresses of
their places, records hold their encodings, and all targets are placed. -/
theorem settle_fixed {stream settled : Stream} {base : Int} {limit : Nat}
    (ok : stream.settle base limit = (settled, .ok ())) :
  SameShape stream settled
    ∧ (∀ i chunk, settled.chunks[i]? = some chunk →
      StandsAt settled.targets (base + settled.lengthBefore i) chunk)
    ∧ (∀ r, .record r ∈ settled.chunks →
      r.encode (targetAddress settled.targets r.target) = r.bytes)
    ∧ ∀ state ∈ settled.targets, state.placed = true
  := by
  have shape : SameShape stream settled := by
    have := settle_sameShape stream base limit
    rwa [ok] at this
  rw [settle] at ok
  split at ok
  · cases ok
  rename_i hplaced
  obtain ⟨hassign, hresolve⟩ := settleRounds_fixed ok
  refine ⟨shape, (assignFrom_fixed hassign).2, (encodeRecords_fixed hresolve).2, ?_⟩
  intro state hstate
  rw [← findIdx_placed_of_sameShape shape] at hplaced
  simpa using List.findIdx?_eq_none_iff.mp hplaced state hstate

/-- What settling leaves of a jump. Its displacement is the number of bytes between its end and its
target, a reader is led to the target exactly if that number is within reach, and in a stream of at
most 16384 bytes it always is. -/
theorem settle_leads_within_reach {stream settled : Stream} {base : Int} {limit : Nat}
    (built : Built stream) (ok : stream.settle base limit = (settled, .ok ())) {i : Nat}
    {r : Record} {opcode : UInt8} (hr : settled.chunks[i]? = some (.record r))
    (hjump : r.kind = .jump opcode) :
  (∃ j : Nat, settled.chunks[j]? = some (.mark r.target)
      ∧ r.displacement (targetAddress settled.targets r.target)
        = settled.lengthBefore j - settled.lengthBefore (i + 1))
    ∧ (∃ operand, r.bytes = opcode :: operand
      ∧ (jumpDisplacement? operand
          = some (r.displacement (targetAddress settled.targets r.target), operand.length)
        ↔ InReach (r.displacement (targetAddress settled.targets r.target))))
    ∧ (settled.length ≤ 16384 →
      InReach (r.displacement (targetAddress settled.targets r.target)))
  := by
  obtain ⟨shape, places, encoded, placed⟩ := settle_fixed ok
  have wf : WellFormed settled := built.wellFormed.of_sameShape shape
  have htarget := wf.targeted (List.mem_of_getElem? hr)
  have hmark : .mark r.target ∈ settled.chunks :=
    wf.marked (List.getElem?_eq_getElem htarget) (placed _ (List.getElem_mem htarget))
  obtain ⟨j, hj⟩ := List.mem_iff_getElem?.mp hmark
  have haddress : r.address = base + settled.lengthBefore i := places i _ hr
  have hplace : targetAddress settled.targets r.target = base + settled.lengthBefore j :=
    places j _ hj
  have hend : settled.lengthBefore (i + 1) = settled.lengthBefore i + r.bytes.length :=
    lengthBefore_succ hr
  have hbytes := encoded r (List.mem_of_getElem? hr)
  simp only [Record.encode, hjump] at hbytes
  refine ⟨⟨j, hj, ?_⟩, ⟨_, hbytes.symm, jumpDisplacement_jumpOperand_iff _ _⟩, ?_⟩
  · rw [Record.displacement, hplace, haddress]
    omega
  · intro hlength
    -- both ends of the jump stand in the stream, and the jump itself takes bytes
    have hwidth : 0 < r.bytes.length := by
      rw [← hbytes]
      apply Nat.succ_pos
    have htargetLe := settled.lengthBefore_le j
    have hendLe := settled.lengthBefore_le (i + 1)
    rw [InReach, Record.displacement, hplace, haddress]
    omega

theorem settle_leads_within_reach_farJump :
  Built farJump ∧ (farJump.settle 20 64).2 = .ok () ∧ (farJump.settle 20 64).1.length ≤ 16384
    ∧ ∀ (i : Nat) (r : Record) (opcode : UInt8),
      (farJump.settle 20 64).1.chunks[i]? = some (.record r) → r.kind = .jump opcode →
      InReach (r.displacement (targetAddress (farJump.settle 20 64).1.targets r.target))
  := by
  have built : Built farJump := by
    apply Built.place 0 {} (by decide) rfl
    apply Built.code
    apply Built.offset 0 (by decide)
    apply Built.jump _ 0 (by decide)
    apply Built.newTarget Built.empty
  have ok : (farJump.settle 20 64).2 = .ok () := by decide +kernel
  have short : (farJump.settle 20 64).1.length ≤ 16384 := by decide +kernel
  refine ⟨built, ok, short, ?_⟩
  intro i r opcode hr hjump
  apply (settle_leads_within_reach built (Prod.ext rfl ok) hr hjump).2.2 short

/-- A jump back over a run of bytes. -/
def backJump (run : Bytes) : Stream :=
  ((({} : Stream).newTarget.2.place 0).code run).jump 0x04 0

theorem backJump_built (run : Bytes) :
  Built (backJump run)
  := by
  apply Built.jump _ 0 (by exact Nat.one_pos)
  apply Built.code
  apply Built.place 0 {} (by decide) rfl
  apply Built.newTarget Built.empty

/-- The jump over 16382 bytes takes the long form and then has three bytes of its own to cross. -/
theorem settle_backJump {run : Bytes} (hlength : run.length = 16382) :
  (backJump run).settle 0 64
    = ({ chunks := [.mark 0, .code run, .record
          { kind := .jump 0x04, target := 0, bytes := [0x04, 0xbf, 0xff], address := 16382 }]
         targets := [{ placed := true }] }, .ok ())
  := by
  have hrun : run.isEmpty = false := by
    cases run with
    | nil => cases hlength
    | cons => rfl
  have hstart : backJump run
      = { chunks := [.mark 0, .code run, .record
            { kind := .jump 0x04, target := 0, bytes := [0x04, 0] }]
          targets := [{ placed := true }] } := by
    simp [backJump, newTarget, place, code, appendCode, jump, addRecord, hrun]
  have hfirst : jumpOperand (-16384) false = [0xc0, 0x00] := by decide
  have hlast : jumpOperand (-16385) true = [0xbf, 0xff] := by decide
  rw [hstart, settle]
  simp [settleRounds_succ, assign, assignFrom, resolve, encodeRecords, Record.encode,
    targetAddress, hlength, Except.map, hfirst, hlast]

/-- Settling accepts a stream of one byte more than jumps reach, and a reader of the jump is led
forward where the target stands behind. -/
theorem settle_accepts_backJump :
  Built (backJump (List.replicate 16382 0x35))
    ∧ ∃ settled r, (backJump (List.replicate 16382 0x35)).settle 0 64 = (settled, .ok ())
      ∧ .record r ∈ settled.chunks ∧ r.kind = .jump 0x04 ∧ settled.length = 16385
      ∧ r.displacement (targetAddress settled.targets r.target) = -16385
      ∧ ¬ InReach (r.displacement (targetAddress settled.targets r.target))
      ∧ jumpDisplacement? r.bytes.tail = some (16383, 2)
  := by
  have hlength : (List.replicate 16382 (0x35 : UInt8)).length = 16382 := List.length_replicate
  generalize List.replicate 16382 (0x35 : UInt8) = run at hlength
  refine ⟨backJump_built run, _,
    { kind := .jump 0x04, target := 0, bytes := [0x04, 0xbf, 0xff], address := 16382 },
    settle_backJump hlength, ?_, rfl, ?_, rfl, (by decide : ¬ InReach (-16385)), by decide⟩
  · apply List.mem_cons_of_mem
    apply List.mem_cons_of_mem
    apply List.mem_singleton_self
  · simp [Stream.length, Chunk.bytes, hlength, total]

end Stream

end SpinHub
