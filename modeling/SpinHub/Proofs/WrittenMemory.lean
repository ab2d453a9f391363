import Mathlib
import SpinHub.Image
import SpinHub.Proofs.Bytes

/-!
# Memory as it is written

The parts of an image are written into one memory of zeros: first the blocks, then the header and
the guard, then the reserved space, and last the checksum. Where the parts lie one behind another,
no write touches what was written before, besides the word of the header that tells where execution
starts; so the memory is the concatenation of its parts.
-/

namespace SpinHub

open Bytes

/-! ### Writes -/

namespace Config

variable {config : Config} {memory memory' : Bytes}

theorem write_eq_ok {piece : Piece} :
  config.write memory piece = .ok memory'
    ↔ (0 ≤ piece.1 ∧ piece.1 + piece.2.length ≤ config.memorySize)
      ∧ memory' = memory.overwrite piece.1.toNat piece.2
  := by
  rw [write]
  split_ifs with h
  · simp only [Except.ok.injEq, h, true_and, eq_comm, and_self]
  · simp only [h, false_and]

theorem writeAll_nil :
  config.writeAll memory [] = .ok memory'
    ↔ memory' = memory
  := by
  rw [writeAll, List.foldlM_nil]
  simp only [pure, Except.pure, Except.ok.injEq, eq_comm]

theorem writeAll_cons {piece : Piece} {rest : List Piece} :
  config.writeAll memory (piece :: rest) = .ok memory'
    ↔ ∃ middle, config.write memory piece = .ok middle
      ∧ config.writeAll middle rest = .ok memory'
  := by
  rw [writeAll, List.foldlM_cons]
  cases config.write memory piece with
  | error cause => simp [bind, Except.bind]
  | ok middle => simp [bind, Except.bind, writeAll]

theorem writeAll_append {front back : List Piece} :
  config.writeAll memory (front ++ back) = .ok memory'
    ↔ ∃ middle, config.writeAll memory front = .ok middle
      ∧ config.writeAll middle back = .ok memory'
  := by
  induction front generalizing memory with
  | nil => simp [writeAll_nil]
  | cons piece rest ih =>
    simp only [List.cons_append, writeAll_cons, ih]
    constructor
    · rintro ⟨first, hpiece, middle, hrest, hback⟩
      exact ⟨middle, ⟨first, hpiece, hrest⟩, hback⟩
    · rintro ⟨middle, ⟨first, hpiece, hrest⟩, hback⟩
      exact ⟨first, hpiece, middle, hrest, hback⟩

/-- Pieces that can be written lie in the memory, and each is written over what is there. -/
theorem writeAll_spec {pieces : List Piece} (h : config.writeAll memory pieces = .ok memory') :
  (∀ piece ∈ pieces, 0 ≤ piece.1 ∧ piece.1 + piece.2.length ≤ config.memorySize)
    ∧ memory' = pieces.foldl (fun memory piece => memory.overwrite piece.1.toNat piece.2) memory
  := by
  induction pieces generalizing memory with
  | nil => exact ⟨nofun, writeAll_nil.mp h⟩
  | cons piece rest ih =>
    obtain ⟨middle, hpiece, hrest⟩ := writeAll_cons.mp h
    obtain ⟨hinside, rfl⟩ := write_eq_ok.mp hpiece
    obtain ⟨hothers, hafter⟩ := ih hrest
    exact ⟨List.forall_mem_cons.mpr ⟨hinside, hothers⟩, hafter⟩

end Config

/-! ### Blocks -/

/-- The first piece starts at `start`, and each of the others where the one before it ends. -/
def Contiguous : Int → List Piece → Prop
  | _, [] => True
  | start, piece :: rest => piece.1 = start ∧ Contiguous (start + piece.2.length) rest

/-- Pieces that are written one behind another replace as many bytes. -/
theorem Config.writeAll_contiguous {config : Config} {front back memory : Bytes}
    {pieces : List Piece} (hpieces : Contiguous front.length pieces)
    (h : config.writeAll
      (front ++ List.replicate (pieces.flatMap Prod.snd).length 0 ++ back) pieces = .ok memory) :
  memory = front ++ pieces.flatMap Prod.snd ++ back
  := by
  induction pieces generalizing front with
  | nil =>
    obtain rfl := writeAll_nil.mp h
    rfl
  | cons piece rest ih =>
    obtain ⟨hstart, hrest⟩ := hpieces
    obtain ⟨middle, hwrite, h⟩ := writeAll_cons.mp h
    obtain ⟨_, rfl⟩ := write_eq_ok.mp hwrite
    rw [hstart, Int.toNat_natCast, List.flatMap_cons, List.length_append,
      ← List.replicate_append_replicate, ← List.append_assoc, List.append_assoc _ _ back,
      overwrite_append (List.length_replicate ..).symm, ← List.append_assoc] at h
    rw [ih (by rw [List.length_append, Nat.cast_add]; exact hrest) h, List.flatMap_cons,
      List.append_assoc front]

/-! ### Parts -/

/-- The boot header with a checksum. -/
def Header.bytes (header : Header) (checksum : UInt8) : Bytes :=
  header.clock.frequency.littleEndian ++ [header.clock.mode, checksum] ++
    halfword SpinHub.headerSize ++ halfword header.varBase ++ halfword header.stackBase ++
    halfword header.pc ++ halfword header.sp

/-- The header of an image with reserved space, in which execution starts at the stub. -/
def Header.booting (header : Header) (reserved : Nat) : Header :=
  if reserved = 0 then header else { header with pc := SpinHub.headerSize + reserved - 8 }

/-- The object that keeps the reserved space, with the stub at its end. -/
def reservedBlock (size : Nat) : Bytes :=
  if size = 0 then []
  else
    halfword size ++ [2, 1] ++ halfword (size - 8) ++ [0, 0] ++ halfword size ++ [0, 0] ++
      List.replicate (size - 20) 0 ++ (spaceStub ++ [0, 0, 0])

/-- The memory behind the header, filled with zeros up to `size` bytes in all. -/
def memoryBody (size : Nat) (reserved blocks : Bytes) (varBytes : Nat) : Bytes :=
  let used := reserved ++ blocks ++ List.replicate varBytes 0 ++ stackGuard
  used ++ List.replicate (size - headerSize - used.length) 0

/-- The memory with the checksum that makes the sum of all bytes zero. -/
def Header.memory (header : Header) (body : Bytes) : Bytes :=
  header.bytes (0 - Bytes.sum (header.bytes 0 ++ body)) ++ body

namespace Header

variable {config : Config} {header : Header} {memory : Bytes}

/-- The numbers of the header go to its sixteen bytes, and the guard to eight bytes behind it. -/
theorem writeAll_pieces {front back : Bytes}
    (hguard : header.guard = SpinHub.headerSize + front.length)
    (h : config.writeAll (List.replicate SpinHub.headerSize 0
      ++ (front ++ List.replicate stackGuard.length 0 ++ back)) header.pieces = .ok memory) :
  memory = header.bytes 0 ++ (front ++ stackGuard ++ back)
  := by
  rw [(Config.writeAll_spec h).2]
  have hplace : header.guard.toNat = front.length + 16 := by
    rw [hguard, Nat.add_comm]
    rfl
  simp only [pieces, List.foldl_cons, List.foldl_nil, SpinHub.headerSize, List.replicate,
    List.cons_append, List.nil_append, Word.littleEndian, halfword, Int.toNat_zero,
    Int.reduceToNat, hplace, overwrite_cons_succ, overwrite_cons_zero, overwrite_nil, bytes]
  rw [overwrite_append (List.length_replicate ..).symm]

/-- The reserved space gets the table and the stub of its object, and execution starts at the
stub. -/
theorem writeAll_reservedPieces {size : Nat} {body : Bytes} (hsize : 20 ≤ size)
    (hsmall : SpinHub.headerSize + size < 2 ^ 31)
    (h : config.writeAll (header.bytes 0 ++ (List.replicate size 0 ++ body)) (reservedPieces size)
      = .ok memory) :
  memory = (header.booting size).bytes 0 ++ (reservedBlock size ++ body)
  := by
  obtain ⟨k, rfl⟩ : ∃ k, size = k + 20 := ⟨size - 20, by omega⟩
  have hplace : (SpinHub.headerSize + (k + 20 : Nat) - 8 : Int) = (k + 28 : Nat) := by
    rw [SpinHub.headerSize]
    omega
  have hstub : int32 (SpinHub.headerSize + (k + 20 : Nat) - 8) = (k + 28 : Nat) := by
    rw [SpinHub.headerSize] at hsmall
    rw [hplace, int32_natCast (by omega)]
  have hzeros : List.replicate (k + 20) (0 : UInt8)
      = List.replicate 12 0 ++ (List.replicate k 0 ++ List.replicate spaceStub.length 0
        ++ [0, 0, 0]) := by
    have htail : ([0, 0, 0] : Bytes) = List.replicate 3 0 := rfl
    rw [htail, List.replicate_append_replicate, List.replicate_append_replicate,
      List.replicate_append_replicate]
    congr 1
    rw [spaceStub, List.length_cons]
    simp
    omega
  have hlength : spaceStub.length = (List.replicate spaceStub.length (0 : UInt8)).length :=
    (List.length_replicate ..).symm
  have hstubWrite := overwrite_append hlength (List.replicate k 0) ([0, 0, 0] ++ body)
  simp only [List.length_replicate, List.append_assoc, List.cons_append, List.nil_append]
    at hstubWrite
  have hmethod : ((k + 28 : Nat) - SpinHub.headerSize : Int) = (k + 20 : Nat) - 8 := by
    rw [SpinHub.headerSize]
    omega
  rw [(Config.writeAll_spec h).2, reservedPieces, if_pos (by omega), hstub, hzeros, booting,
    if_neg (by omega), reservedBlock, if_neg (by omega), hplace]
  dsimp only
  rw [hmethod]
  simp only [List.foldl_cons, List.foldl_nil, SpinHub.headerSize, List.replicate,
    List.cons_append, List.nil_append, Word.littleEndian, halfword, Int.reduceToNat,
    Int.toNat_natCast, overwrite_cons_succ, overwrite_cons_zero, overwrite_nil, bytes,
    List.append_assoc, hstubWrite, Nat.add_sub_cancel]

/-- The checksum goes to its byte of the header. -/
theorem write_checksum {body : Bytes}
    (h : config.write (header.bytes 0 ++ body) (checksumPiece (header.bytes 0 ++ body))
      = .ok memory) :
  memory = header.memory body
  := by
  rw [(Config.write_eq_ok.mp h).2, Header.memory, checksumPiece]
  generalize 0 - Bytes.sum _ = checksum
  simp only [bytes, Word.littleEndian, halfword, List.cons_append, List.nil_append,
    Int.reduceToNat, overwrite_cons_succ, overwrite_cons_zero, overwrite_nil]

theorem length_reservedBlock {size : Nat} (h : size = 0 ∨ 20 ≤ size) :
  (reservedBlock size).length = size
  := by
  rw [reservedBlock]
  split_ifs with hzero
  · rw [hzero]
    rfl
  · simp only [List.length_append, length_halfword, List.length_cons, List.length_nil,
      List.length_replicate, spaceStub]
    omega

/-- The object that keeps the reserved space is written, if there is one. -/
theorem writeAll_reserved {size : Nat} {body : Bytes} (hsize : size = 0 ∨ 20 ≤ size)
    (hsmall : SpinHub.headerSize + size < 2 ^ 31)
    (h : config.writeAll (header.bytes 0 ++ (List.replicate size 0 ++ body)) (reservedPieces size)
      = .ok memory) :
  memory = (header.booting size).bytes 0 ++ (reservedBlock size ++ body)
  := by
  rcases hsize with rfl | hsize
  · exact Config.writeAll_nil.mp h
  · exact writeAll_reservedPieces hsize hsmall h

/-- The memory that is written is the concatenation of its parts: the header, the reserved space,
the blocks, room for the variables, the guard, and zeros. -/
theorem written {blocks : List Piece} {reserved varBytes : Nat} {first second : Bytes}
    (hreserved : reserved = 0 ∨ 20 ≤ reserved) (hsmall : SpinHub.headerSize + reserved < 2 ^ 31)
    (hblocks : Contiguous (SpinHub.headerSize + reserved : Nat) blocks)
    (hguard : header.guard
      = (SpinHub.headerSize + reserved + (blocks.flatMap Prod.snd).length + varBytes : Nat))
    (hfirst : config.writeAll (List.replicate config.memorySize 0) blocks = .ok first)
    (hsecond : config.writeAll first (header.pieces ++ reservedPieces reserved) = .ok second)
    (hlast : config.write second (checksumPiece second) = .ok memory) :
  memory = (header.booting reserved).memory (memoryBody config.memorySize
    (reservedBlock reserved) (blocks.flatMap Prod.snd) varBytes)
  := by
  obtain ⟨middle, hpieces, hrest⟩ := Config.writeAll_append.mp hsecond
  -- the guard is one of the pieces, so there is room for all that stands before it
  have hroom : header.guard + stackGuard.length ≤ config.memorySize :=
    ((Config.writeAll_spec hpieces).1 (header.guard, stackGuard) (by simp [pieces])).2
  rw [hguard] at hroom
  generalize hbytes : blocks.flatMap Prod.snd = bytes at hguard hroom ⊢
  obtain ⟨rest, hsize⟩ : ∃ rest, config.memorySize = SpinHub.headerSize + reserved + bytes.length
      + (varBytes + stackGuard.length + rest) :=
    ⟨config.memorySize - (SpinHub.headerSize + reserved + bytes.length + varBytes
      + stackGuard.length), by omega⟩
  have hzeros : List.replicate config.memorySize (0 : UInt8)
      = List.replicate (SpinHub.headerSize + reserved) 0 ++ List.replicate bytes.length 0
        ++ List.replicate (varBytes + stackGuard.length + rest) 0 := by
    rw [List.replicate_append_replicate, List.replicate_append_replicate, hsize]
  rw [hzeros, ← hbytes] at hfirst
  have hwritten := Config.writeAll_contiguous (by rwa [List.length_replicate]) hfirst
  have hparts : first = List.replicate SpinHub.headerSize 0
      ++ (List.replicate reserved 0 ++ bytes ++ List.replicate varBytes 0
        ++ List.replicate stackGuard.length 0 ++ List.replicate rest 0) := by
    rw [hwritten, hbytes]
    simp only [← List.replicate_append_replicate, List.append_assoc]
  rw [hparts] at hpieces
  have hheader := writeAll_pieces (by
    rw [hguard]
    simp only [List.length_append, List.length_replicate]
    omega) hpieces
  rw [hheader, List.append_assoc, List.append_assoc, List.append_assoc] at hrest
  rw [writeAll_reserved hreserved hsmall hrest] at hlast
  rw [write_checksum hlast]
  congr 1
  rw [memoryBody]
  simp only [List.append_assoc, List.length_append, length_reservedBlock hreserved,
    List.length_replicate]
  congr 5
  omega

end Header

end SpinHub
