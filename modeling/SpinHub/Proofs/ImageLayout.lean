import Mathlib
import SpinHub.Compilation
import SpinHub.Proofs.BlockLayout
import SpinHub.Proofs.SharedObjects
import SpinHub.Proofs.WrittenMemory

/-!
# The layout of images

An image holds the block of every object that was not replaced at the address of the object, with
or without duplicates shared, and all blocks end below the end of the memory. Addresses and sizes
are reckoned in 32 bits; `Build.Exact` says that nothing is dropped on the way.
-/

namespace SpinHub

open Bytes

variable {α β : Type}

namespace Step

/-! ### Steps that change no object -/

/-- Where space is reserved, the table and the stub have room in it, and it ends at a long. -/
theorem reservedFor_cases {asked : Int} (hasked : -2 ^ 31 ≤ asked ∧ asked < 2 ^ 31)
    (h : (reservedFor asked % 0x100000000).toNat < 2 ^ 31) :
  ((reservedFor asked % 0x100000000).toNat = 0 ∨ 20 ≤ (reservedFor asked % 0x100000000).toNat)
    ∧ 4 ∣ (reservedFor asked % 0x100000000).toNat
  := by
  revert h
  rw [reservedFor]
  split_ifs with hpos
  · have hbounds := int32_bounds (asked + 3)
    rw [int32_emod]
    omega
  · omega

/-- Adding up the reserved bytes changes nothing. They are none, or enough longs for the stub, if
they stay in 32 bits. -/
theorem yields_reserved {size : Nat} {s s' : Build} (h : Yields reserved s size s') :
  s.Unchanged s' ∧ (size < 2 ^ 31 → (size = 0 ∨ 20 ≤ size) ∧ 4 ∣ size)
  := by
  have hquiet := (reserved_steady Build.Unchanged.tolerant).yields h
  obtain ⟨asked, m, _, hpure⟩ := yields_bind.mp (yields_get_bind.mp h)
  rw [(yields_pure.mp hpure).1]
  exact ⟨hquiet, reservedFor_cases (int32_bounds _)⟩

theorem reserved_room {size : Nat} {s s' : Build} (h : Yields reserved s size s')
    (hsmall : size < 2 ^ 31) :
  size = 0 ∨ 20 ≤ size
  := ((yields_reserved h).2 hsmall).1

/-- A computation that only remembers totals. -/
theorem yields_ofState {action : StateM Build α} {value a : α} {s s' : Build}
    (hknown : TotalsKnown s.objects s.totals) (hcomputes : Computes s.Knows action value)
    (h : Yields (ofState action) s a s') :
  a = value ∧ ∃ totals, s' = { s with totals } ∧ TotalsKnown s.objects totals
  := by
  obtain ⟨hvalue, hafter⟩ := hcomputes s ⟨s.totals, rfl, hknown⟩
  have hrun : action.run s = (a, s') := by
    cases h
    rfl
  rw [hrun] at hvalue hafter
  exact ⟨hvalue, hafter⟩

/-! ### Addresses -/

/-- Objects get consecutive addresses, and nothing else of them changes. -/
theorem assignAddresses_spec {address finish : Nat} {ids : List ObjId} {s s' : Build}
    (hnodup : ids.Nodup) (hids : ∀ id ∈ ids, id < s.objects.length)
    (h : Yields (assignAddresses address ids) s finish s') :
  s.KeepsAll Object.unplaced s' ∧ (∀ id, id ∉ ids → s'.object id = s.object id)
    ∧ finish = address + total (ids.map fun id => (s.object id).size)
    ∧ ∀ i id, ids[i]? = some id →
      (s'.object id).address = address + total ((ids.take i).map fun id => (s.object id).size)
  := by
  induction ids generalizing address s with
  | nil =>
    obtain ⟨rfl, rfl⟩ := yields_pure.mp h
    exact ⟨.refl _, fun _ _ => rfl, rfl, nofun⟩
  | cons id rest ih =>
    obtain ⟨hfresh, hnodup'⟩ := List.nodup_cons.mp hnodup
    obtain ⟨_, m, hmodify, hrest⟩ := yields_bind.mp h
    obtain rfl := yields_modifyObject.mp hmodify
    replace hrest := yields_object_bind.mp hrest
    have hid := hids id List.mem_cons_self
    have hkeeps : s.Keeps id Object.unplaced
        (s.modifyObject id fun object => { object with address }) := .modifyObject rfl
    set placed := s.modifyObject id fun object => { object with address } with hplaced
    have hself : placed.object id = { s.object id with address } :=
      Build.object_modifyObject_self _ hid
    have hsize : (placed.object id).size = (s.object id).size := by
      rw [hself]
    have hsizes (ids : List ObjId) : ids.map (fun id => (placed.object id).size)
        = ids.map fun id => (s.object id).size := by
      apply List.map_congr_left
      intro other _
      exact (congrArg Object.size ((Build.KeepsAll.of_keeps hkeeps).objects other) :)
    have hids' : ∀ other ∈ rest, other < placed.objects.length := by
      intro other hother
      rw [hkeeps.length]
      apply hids other (List.mem_cons_of_mem id hother)
    obtain ⟨hkeeps', hothers, hfinish, haddress⟩ := ih hnodup' hids' hrest
    rw [hsize, hsizes] at hfinish
    refine ⟨(Build.KeepsAll.of_keeps hkeeps).trans hkeeps', fun _ => hkeeps.others_cons hothers,
      ?_, ?_⟩
    · rw [hfinish, List.map_cons, Nat.add_assoc]
      rfl
    · intro i other hother
      cases i with
      | zero =>
        cases hother
        rw [hothers id hfresh, hself]
        rfl
      | succ i =>
        rw [haddress i other hother, hsize, hsizes, List.take_succ_cons, List.map_cons,
          Nat.add_assoc]
        rfl

/-! ### Blocks -/

/-- The blocks of objects, each with the address of its object. -/
theorem blocks_spec {ids : List ObjId} {pieces : List Piece} {s s' : Build} {rank : ObjId → Nat}
    (hranked : Ranked s.objects [] rank) (hknown : TotalsKnown s.objects s.totals)
    (hids : ∀ id ∈ ids, id < s.objects.length) (h : Yields (blocks ids) s pieces s') :
  pieces = ids.map (fun id => (int32 (s.object id).address, s.blockOf id))
    ∧ ∃ totals, s' = { s with totals } ∧ TotalsKnown s.objects totals
  := by
  induction ids generalizing pieces s with
  | nil =>
    obtain ⟨rfl, rfl⟩ := yields_pure.mp h
    exact ⟨rfl, s'.totals, rfl, hknown⟩
  | cons id rest ih =>
    rw [blocks, List.mapM_cons] at h
    obtain ⟨piece, m, hpiece, hrest⟩ := yields_bind.mp h
    obtain ⟨others, m', hothers, hpure⟩ := yields_bind.mp hrest
    obtain ⟨rfl, rfl⟩ := yields_pure.mp hpure
    obtain ⟨block, m, hblock, hpure⟩ := yields_bind.mp (yields_object_bind.mp hpiece)
    obtain ⟨rfl, rfl⟩ := yields_pure.mp hpure
    obtain ⟨rfl, totals, rfl, hknown'⟩ := yields_ofState hknown
      (Build.block_computes hranked (hids id List.mem_cons_self)) hblock
    obtain ⟨rfl, hafter⟩ := @ih others { s with totals } hranked hknown'
      (fun other hmem => hids other (List.mem_cons_of_mem id hmem)) hothers
    exact ⟨rfl, hafter⟩

end Step

namespace Build

/-- The blocks of objects stand one behind another, the first from `start` on and the last up to
`finish`. -/
def Tiles (build : Build) : Nat → List ObjId → Nat → Prop
  | start, [], finish => start = finish
  | start, id :: rest, finish =>
    (build.object id).address = start ∧ build.Tiles (start + (build.object id).size) rest finish

theorem tiles_of_addresses {build : Build} {start : Nat} {ids : List ObjId}
    (h : ∀ i id, ids[i]? = some id → (build.object id).address
      = start + total ((ids.take i).map fun id => (build.object id).size)) :
  build.Tiles start ids (start + total (ids.map fun id => (build.object id).size))
  := by
  induction ids generalizing start with
  | nil => rfl
  | cons id rest ih =>
    refine ⟨h 0 id rfl, ?_⟩
    have hrest : ∀ i other, rest[i]? = some other → (build.object other).address
        = start + (build.object id).size
          + total ((rest.take i).map fun id => (build.object id).size) := by
      intro i other hother
      rw [h (i + 1) other hother, List.take_succ_cons, List.map_cons, Nat.add_assoc]
      rfl
    have hfinish : start + total ((id :: rest).map fun id => (build.object id).size)
        = start + (build.object id).size
          + total (rest.map fun id => (build.object id).size) := by
      rw [List.map_cons, Nat.add_assoc]
      rfl
    rw [hfinish]
    apply ih hrest

namespace Tiles

variable {build : Build} {start finish : Nat} {ids : List ObjId} (h : build.Tiles start ids finish)

include h

/-- Blocks of whole longs stand at longs. -/
theorem aligned (hstart : 4 ∣ start) (hsizes : ∀ id ∈ ids, 4 ∣ (build.object id).size) :
  (∀ id ∈ ids, 4 ∣ (build.object id).address) ∧ 4 ∣ finish
  := by
  induction ids generalizing start with
  | nil =>
    obtain rfl := h
    exact ⟨nofun, hstart⟩
  | cons id rest ih =>
    obtain ⟨haddress, hrest⟩ := h
    obtain ⟨hid, hothers⟩ := List.forall_mem_cons.mp hsizes
    obtain ⟨haligned, hfinish⟩ := ih hrest (Nat.dvd_add hstart hid) hothers
    refine ⟨List.forall_mem_cons.mpr ⟨?_, haligned⟩, hfinish⟩
    rw [haddress]
    exact hstart

/-- Every address from the first block to the end of the last lies in one of them. -/
theorem covers {address : Nat} (hstart : start ≤ address) (hfinish : address < finish) :
  ∃ id ∈ ids, (build.object id).address ≤ address
    ∧ address < (build.object id).address + (build.object id).size
  := by
  induction ids generalizing start with
  | nil =>
    obtain rfl := h
    omega
  | cons id rest ih =>
    obtain ⟨haddress, hrest⟩ := h
    by_cases hinside : address < start + (build.object id).size
    · use id, List.mem_cons_self
      omega
    · obtain ⟨other, hother, hbounds⟩ := ih hrest (Nat.le_of_not_lt hinside)
      use other, List.mem_cons_of_mem id hother

/-- No block starts before the first one. -/
theorem start_le :
  start ≤ finish ∧ ∀ id ∈ ids, start ≤ (build.object id).address
    ∧ (build.object id).address + (build.object id).size ≤ finish
  := by
  induction ids generalizing start with
  | nil =>
    obtain rfl := h
    exact ⟨Nat.le_refl _, nofun⟩
  | cons id rest ih =>
    obtain ⟨haddress, hrest⟩ := h
    obtain ⟨hle, hothers⟩ := ih hrest
    refine ⟨by omega, List.forall_mem_cons.mpr ⟨by omega, ?_⟩⟩
    intro other hother
    have := hothers other hother
    omega

/-- The blocks of the objects fill what lies between the ends. -/
theorem length_blocks :
  start + (ids.flatMap build.blockOf).length = finish
  := by
  induction ids generalizing start with
  | nil => exact h
  | cons id rest ih =>
    rw [List.flatMap_cons, List.length_append, length_blockOf, ← Nat.add_assoc, ih h.2]

/-- Where the blocks stand one behind another in a memory, each stands at its address. -/
theorem holds {memory : Bytes} (hblocks : Holds memory start (ids.flatMap build.blockOf)) :
  ∀ id ∈ ids, Holds memory (build.object id).address (build.blockOf id)
  := by
  induction ids generalizing start with
  | nil => exact nofun
  | cons id rest ih =>
    obtain ⟨haddress, hrest⟩ := h
    rw [List.flatMap_cons] at hblocks
    obtain ⟨hblock, hothers⟩ := holds_append.mp hblocks
    rw [length_blockOf] at hothers
    refine List.forall_mem_cons.mpr ⟨?_, ih hrest hothers⟩
    rwa [haddress]

/-- Where no address is out of the range of 32 bits, neither is the end of the blocks. -/
theorem finish_lt (hids : ids ≠ [])
    (hexact : ∀ id ∈ ids, (build.object id).address + (build.object id).size < 2 ^ 31) :
  finish < 2 ^ 31
  := by
  induction ids generalizing start with
  | nil => exact absurd rfl hids
  | cons id rest ih =>
    obtain ⟨haddress, hrest⟩ := h
    obtain ⟨hid, hothers⟩ := List.forall_mem_cons.mp hexact
    cases rest with
    | nil =>
      rw [Tiles] at hrest
      omega
    | cons => exact ih hrest (List.cons_ne_nil _ _) hothers

/-- The blocks are written one behind another. -/
theorem contiguous
    (hexact : ∀ id ∈ ids, (build.object id).address + (build.object id).size < 2 ^ 31) :
  Contiguous start (ids.map fun id => (int32 (build.object id).address, build.blockOf id))
  := by
  induction ids generalizing start with
  | nil => trivial
  | cons id rest ih =>
    obtain ⟨haddress, hrest⟩ := h
    obtain ⟨hid, hothers⟩ := List.forall_mem_cons.mp hexact
    refine ⟨?_, ?_⟩
    · dsimp only
      rw [int32_natCast (by omega), haddress]
    · have hnext := ih hrest hothers
      rw [Nat.cast_add] at hnext
      rw [length_blockOf]
      exact hnext

end Tiles

end Build

/-! ### Memory -/

theorem Header.length_bytes (header : Header) (checksum : UInt8) :
  (header.bytes checksum).length = headerSize
  := rfl

theorem Header.bytes_holds (header : Header) (checksum : UInt8) :
  Holds (header.bytes checksum) 12 (halfword header.pc)
  := by
  rw [Header.bytes]
  exact (holds_append.mp (holds_zero_append _ (halfword header.sp))).2

/-- The header stands first, and the blocks stand behind it and the reserved space. -/
theorem Header.memory_holds {header : Header} {size reserved varBytes : Nat}
    {blocks memory : Bytes} (hreserved : reserved = 0 ∨ 20 ≤ reserved)
    (h : memory = header.memory (memoryBody size (reservedBlock reserved) blocks varBytes)) :
  Holds memory 12 (halfword header.pc)
    ∧ Holds memory headerSize (reservedBlock reserved)
    ∧ Holds memory (headerSize + reserved) blocks
  := by
  rw [h, Header.memory]
  generalize 0 - Bytes.sum _ = checksum
  have hheader := holds_zero_append (header.bytes checksum)
    (memoryBody size (reservedBlock reserved) blocks varBytes)
  have hpc := hheader.inside (header.bytes_holds checksum)
  rw [Nat.zero_add] at hpc
  have hbody := holds_append_right (header.bytes checksum)
    (memoryBody size (reservedBlock reserved) blocks varBytes)
  rw [header.length_bytes] at hbody
  have hused := (holds_append.mp hbody).1
  have hblocks := (holds_append.mp (holds_append.mp hused).1).1
  obtain ⟨hstart, hplace⟩ := holds_append.mp hblocks
  rw [length_reservedBlock hreserved] at hplace
  exact ⟨hpc, hstart, hplace⟩

/-- A computation that goes on behind a check has passed it. -/
theorem yields_check {σ : Type} {c : Prop} [Decidable c] {pos : Pos} {cause : Cause}
    {k : Unit → ExceptT Fault (StateM σ) β} {b : β} {s s' : σ}
    (h : Yields (if c then failAt pos cause >>= k else k ()) s b s') :
  ¬ c ∧ Yields (k ()) s b s'
  := by
  split_ifs at h with hc
  · obtain ⟨_, _, hfail, _⟩ := yields_bind.mp h
    cases yields_failAt hfail
  · exact ⟨hc, h⟩

/-- How an image was written from a build, with `reserved` bytes behind the header and blocks up to
`finish`: first the blocks of the survivors, then the header and the guard, then the reserved space,
and last the checksum. All numbers of the header are reckoned in 32 bits. -/
structure Image.Written (image : Image) (config : Config) (build : Build) (reserved finish : Nat)
    (header : Header) : Prop where
  tiles : build.Tiles (headerSize + reserved) build.survivors finish
  writes : ∃ first second, config.writeAll (List.replicate config.memorySize 0)
        (build.survivors.map fun id => (int32 (build.object id).address, build.blockOf id))
        = .ok first
      ∧ config.writeAll first (header.pieces ++ reservedPieces (int32 reserved)) = .ok second
      ∧ config.write second (checksumPiece second) = .ok image.memory
  clock : header.clock = image.clock
  clocked : ∃ before after, before.objects = build.objects
    ∧ Yields Step.clock before image.clock after
  varBase : header.varBase = int32 finish
  guard : header.guard
    = int32 (header.varBase + varTotal build.objects build.objects.length Build.root)
  stackBase : header.stackBase = int32 (header.guard + stackGuard.length)
  ends : image.varBase = header.varBase.toNat ∧ image.stackBase = header.stackBase.toNat
  below : header.varBase < config.memoryWord
  entry : ∃ first, (build.object Build.root).firstPublic? = some first
    ∧ header.sp = header.stackBase + first.frameSize
    ∧ header.pc = (build.object (build.survivor Build.root)).address + first.offset

/-- What writing an image does: it reserves space, gives the survivors consecutive addresses behind
it, writes their blocks there, and then only evaluates constants and totals. -/
theorem Step.yields_image {config : Config} {image : Image} {s s' : Build}
    (h : Yields (Step.image config) s image s') :
  ∃ size finish blocks first second varBytes, ∃ header : Header, ∃ m₁ m₂ m₃ m₄ m₅,
    Yields reserved s size m₁
    ∧ Yields (assignAddresses (headerSize + size) m₁.survivors) m₁ finish m₂
    ∧ Yields (Step.blocks m₁.survivors) m₂ blocks m₃
    ∧ Yields clock m₃ image.clock m₄
    ∧ Yields (ofState (Build.totalVarSize Build.root)) m₄ varBytes m₅
    ∧ m₅.Unchanged s'
    ∧ (config.writeAll (List.replicate config.memorySize 0) blocks = .ok first
      ∧ config.writeAll first (header.pieces ++ reservedPieces (int32 size)) = .ok second
      ∧ config.write second (checksumPiece second) = .ok image.memory)
    ∧ header.clock = image.clock ∧ header.varBase = int32 finish
    ∧ header.guard = int32 (header.varBase + varBytes)
    ∧ header.stackBase = int32 (header.guard + stackGuard.length)
    ∧ (image.varBase = header.varBase.toNat ∧ image.stackBase = header.stackBase.toNat)
    ∧ header.varBase < config.memoryWord
    ∧ ∃ first, (s'.object Build.root).firstPublic? = some first
      ∧ header.sp = header.stackBase + first.frameSize
      ∧ header.pc = (s'.object (s'.survivor Build.root)).address + first.offset
  := by
  obtain ⟨size, m₁, hreserved, h₁⟩ := yields_bind.mp h
  obtain ⟨finish, m₂, hassign, h₂⟩ := yields_bind.mp (yields_get_bind.mp h₁)
  obtain ⟨hlarge, h₃⟩ := yields_check h₂
  obtain ⟨blocks, _, hblocks, h₄⟩ := yields_bind.mp h₃
  obtain ⟨first, m₃, hwriteBlocks, h₅⟩ := yields_bind.mp h₄
  obtain ⟨hfirst, rfl⟩ := yields_liftAt.mp hwriteBlocks
  obtain ⟨clock, m₄, hclock, h₆⟩ := yields_bind.mp h₅
  obtain ⟨varBytes, m₅, hvars, h₇⟩ := yields_bind.mp h₆
  obtain ⟨free, m₆, hfree, h₈⟩ := yields_bind.mp h₇
  obtain ⟨stack, m₇, hstack, h₉⟩ := yields_bind.mp h₈
  obtain ⟨_, m₈, hbudget, h₁₀⟩ := yields_bind.mp h₉
  obtain ⟨_, rfl⟩ := yields_liftAt.mp hbudget
  obtain ⟨_, h₁₁⟩ := yields_check h₁₀
  have hwrite := yields_get_bind.mp h₁₁
  have hquiet := Build.Unchanged.tolerant
  have hafter : m₅.Unchanged m₈ :=
    ((Steady.evaluateIn hquiet _ _).yields hfree).trans
      ((Steady.evaluateIn hquiet _ _).yields hstack)
  cases hentry : (m₈.object Build.root).firstPublic? with
  | none =>
    simp only [hentry] at hwrite
    cases yields_failAt hwrite
  | some entry =>
    simp only [hentry] at hwrite
    obtain ⟨second, _, hpieces, hrest⟩ := yields_bind.mp hwrite
    obtain ⟨hsecond, rfl⟩ := yields_liftAt.mp hpieces
    obtain ⟨memory, _, hchecksum, hpure⟩ := yields_bind.mp hrest
    obtain ⟨hlast, rfl⟩ := yields_liftAt.mp hchecksum
    obtain ⟨rfl, rfl⟩ := yields_pure.mp hpure
    exact ⟨size, finish, blocks, first, second, varBytes, _, m₁, m₂, m₃, m₄, m₅, hreserved, hassign,
      hblocks, hclock, hvars, hafter, ⟨hfirst, hsecond, hlast⟩, rfl, rfl, rfl, rfl, ⟨rfl, rfl⟩,
      Int.lt_of_not_ge hlarge, entry, hentry, rfl, rfl⟩

/-- The survivors are the objects that were not replaced, each once. -/
theorem Build.survivors_spec {build : Build}
    (horder : build.order.Perm (List.range build.objects.length)) :
  build.survivors.Nodup
    ∧ ∀ id, id ∈ build.survivors
      ↔ id < build.objects.length ∧ (build.object id).replacement = none
  := by
  constructor
  · apply List.Nodup.filter
    exact horder.nodup_iff.mpr List.nodup_range
  · intro id
    rw [survivors, List.mem_filter, horder.mem_iff, List.mem_range, Option.isNone_iff_eq_none]

/-- Addresses do not decide which objects survive. -/
theorem Build.Agree.survivors {b b' : Build} (h : b.Agree Object.unplaced b') :
  b'.survivors = b.survivors
  := by
  have hlinks (id : ObjId) : (b'.object id).replacement = (b.object id).replacement :=
    (congrArg Object.replacement (h.objects id) :)
  simp only [Build.survivors, h.order, hlinks]

/-- Writing an image places the survivors and changes nothing else of the objects. -/
theorem Step.image_spec {config : Config} {image : Image} {laid s s' : Build}
    (hlaid : laid.Laid) (hs : laid.Sharing s []) (h : Yields (Step.image config) s image s') :
  s.Agree Object.unplaced s' ∧ TotalsKnown s'.objects s'.totals
    ∧ ∃ size m finish header, Yields reserved s size m
      ∧ image.Written config s' size finish header
  := by
  obtain ⟨size, finish, blocks, first, second, varBytes, header, m₁, m₂, m₃, m₄, m₅, hreserved,
    hassign, hblocks, hclock, hvars, hquiet₅, hwrites, hheader, hvarBase, hguard, hstackBase, hends,
    hbelow, hentry⟩ := yields_image h
  have hquiet₁ := (yields_reserved hreserved).1
  have hquiet₄ := (clock_steady Build.Unchanged.tolerant).yields hclock
  obtain ⟨rank, hranked⟩ := hlaid.ranked
  obtain ⟨hnodup, hmem⟩ := Build.survivors_spec (hs.order hlaid)
  have hobject₁ : m₁.object = s.object := funext hquiet₁.object
  have hsurvivors : m₁.survivors = s.survivors := by
    rw [Build.survivors, hquiet₁.order, hobject₁, Build.survivors]
  rw [hsurvivors] at hassign hblocks
  have hids : ∀ id ∈ s.survivors, id < m₁.objects.length := by
    intro id hid
    rw [hquiet₁.objects]
    exact ((hmem id).mp hid).1
  obtain ⟨hkeeps, _, hfinish, haddress⟩ := assignAddresses_spec hnodup hids hassign
  rw [hobject₁] at hfinish haddress
  have hagree : s.Agree Object.unplaced m₂ :=
    (Build.Agree.of_unchanged hquiet₁).trans hkeeps.toAgree
  have hknown₂ : TotalsKnown m₂.objects m₂.totals := by
    rw [hkeeps.totals, hquiet₁.totals]
    apply hagree.of_unplaced.sameInstances.totalsKnown hs.totals
  have hranked₂ := (hs.agree.trans hagree.of_unplaced).ranked hranked
  obtain ⟨rfl, totals, rfl, hknown₃⟩ :=
    blocks_spec hranked₂ hknown₂ (by rwa [hkeeps.length]) hblocks
  -- from here on only totals and constants are computed
  have hobjects₄ : m₄.objects = m₂.objects := hquiet₄.objects
  have hknown₄ : TotalsKnown m₄.objects m₄.totals := by
    rw [hobjects₄, hquiet₄.totals]
    exact hknown₃
  have hroot : Build.root < m₄.objects.length := by
    rw [hobjects₄, hagree.length, hs.agree.length]
    exact hlaid.nonempty
  obtain ⟨rfl, totals', rfl, hknown₅⟩ := yields_ofState hknown₄
    (Build.totalVarSize_computes (by rwa [hobjects₄]) hroot) hvars
  have hobjects : s'.objects = m₂.objects := hquiet₅.objects.trans hobjects₄
  have hobject (id : ObjId) : s'.object id = m₂.object id := by
    rw [Build.object, hobjects, Build.object]
  have hagree' : s.Agree Object.unplaced s' := by
    refine hagree.trans ⟨?_, by rw [hobjects], hquiet₅.order.trans hquiet₄.order⟩
    intro id
    rw [hobject]
  have hsize (id : ObjId) : (s.object id).size = (s'.object id).size :=
    (congrArg Object.size (hagree'.objects id) :).symm
  simp only [← hobject] at haddress hwrites
  rw [hobjects₄, ← hobjects] at hguard
  rw [← funext (Build.blockOf_congr hobjects), ← hagree'.survivors] at hwrites
  simp only [hsize, ← hagree'.survivors] at haddress hfinish
  refine ⟨hagree', ?_, size, m₁, finish, header, hreserved, ?_, ⟨first, second, hwrites⟩, hheader,
    ⟨{ m₂ with totals }, m₄, hobjects.symm, hclock⟩, hvarBase, hguard, hstackBase, hends, hbelow,
    hentry⟩
  · rw [hquiet₅.objects, hquiet₅.totals]
    exact hknown₅
  · rw [hfinish]
    exact Build.tiles_of_addresses haddress

/-! ### Builds within 32 bits -/

/-- No number of instances, no address, no offset of a variable and no size of a frame leaves the
range of the signed 32-bit numbers, which all of them are reckoned in. -/
@[mk_iff]
structure Build.Exact (build : Build) : Prop where
  counts : ∀ id < build.objects.length, total ((build.object id).subs.map (·.count)) < 2 ^ 31
  addresses : ∀ id ∈ build.survivors,
    (build.object id).address + (build.object id).size < 2 ^ 31
  hubAddresses : ∀ id < build.objects.length,
    (build.object id).hubAddress + (build.object id).size < 2 ^ 31
  vars : ∀ id < build.objects.length, ((Build.totalVarSize id).run build).1 < 2 ^ 31
  frames : ∀ id < build.objects.length, ∀ method ∈ (build.object id).methods,
    method.frameSize < 2 ^ 31

instance (build : Build) : Decidable build.Exact :=
  decidable_of_iff' _ build.exact_iff

namespace Build.Sharing

variable {laid build : Build} {pending : List ObjId} (hlaid : laid.Laid)
  (h : laid.Sharing build pending)

include hlaid h

/-- What stands for the root survives. -/
theorem survivors_ne_nil :
  build.survivors ≠ []
  := by
  have hroot : root < build.objects.length := by
    rw [h.agree.length]
    exact hlaid.nonempty
  apply List.ne_nil_of_mem
  exact ((survivors_spec (h.order hlaid)).2 _).mpr (h.survivor_free hroot)

/-- The bytes of the variables of an object and of all instances in it. -/
theorem run_totalVarSize {id : ObjId} (hid : id < build.objects.length) :
  ((Build.totalVarSize id).run build).1 = varTotal build.objects build.objects.length id
  := by
  obtain ⟨rank, hranked⟩ := hlaid.ranked
  exact (totalVarSize_computes (h.agree.ranked hranked) hid build ⟨build.totals, rfl, h.totals⟩).1

end Build.Sharing

/-- The numbers that an image shares with its header, where they were reckoned exactly. The guard
stands behind the variables, and there is room for it. -/
structure Image.Headed (image : Image) (config : Config) (header : Header) (varBytes : Nat) :
    Prop where
  clock : header.clock = image.clock
  varBase : header.varBase = image.varBase
  stackBase : header.stackBase = int32 (image.varBase + varBytes + stackGuard.length : Nat)
  ends : image.stackBase = header.stackBase.toNat
  below : (image.varBase : Int) < config.memoryWord
  room : image.varBase + varBytes + stackGuard.length ≤ config.memorySize

namespace Image.Written

variable {laid build : Build} {image : Image} {config : Config} {header : Header}
  {reserved finish : Nat} (h : image.Written config build reserved finish header)
  (hlaid : laid.Laid) (hs : laid.Sharing build []) (hexact : build.Exact)

include h hlaid hs hexact

theorem finish_lt :
  finish < 2 ^ 31
  := h.tiles.finish_lt (hs.survivors_ne_nil hlaid) hexact.addresses

theorem varBase_eq :
  header.varBase = finish ∧ image.varBase = finish
  := by
  have hvarBase : header.varBase = finish := by
    rw [h.varBase, int32_natCast (h.finish_lt hlaid hs hexact)]
  refine ⟨hvarBase, ?_⟩
  rw [h.ends.1, hvarBase, Int.toNat_natCast]

/-- A guard that was written was reckoned exactly: the sum has less than 33 bits, and one that does
not fit into 31 would be negative. -/
theorem guard_eq :
  header.guard = (finish + varTotal build.objects build.objects.length Build.root : Nat)
    ∧ finish + varTotal build.objects build.objects.length Build.root + stackGuard.length
      ≤ config.memorySize
  := by
  obtain ⟨first, second, _, hsecond, _⟩ := h.writes
  obtain ⟨hnonneg, hroom⟩ := (Config.writeAll_spec hsecond).1 (header.guard, stackGuard)
    (by simp [Header.pieces])
  have hfinish := h.finish_lt hlaid hs hexact
  have hroot : Build.root < build.objects.length := by
    rw [hs.agree.length]
    exact hlaid.nonempty
  have hvars := hexact.vars _ hroot
  rw [hs.run_totalVarSize hlaid hroot] at hvars
  have hguard : header.guard
      = (finish + varTotal build.objects build.objects.length Build.root : Nat) := by
    have hwrapped := int32_emod
      (header.varBase + varTotal build.objects build.objects.length Build.root)
    rw [← h.guard, (h.varBase_eq hlaid hs hexact).1] at hwrapped
    have hhigh : header.guard < 2 ^ 31 := by
      rw [h.guard]
      exact (int32_bounds _).2
    dsimp only at hnonneg
    omega
  dsimp only at hroom
  exact ⟨hguard, by omega⟩

theorem headed :
  image.Headed config header (varTotal build.objects build.objects.length Build.root)
  := by
  obtain ⟨hvarBase, hend⟩ := h.varBase_eq hlaid hs hexact
  obtain ⟨hguard, hroom⟩ := h.guard_eq hlaid hs hexact
  refine ⟨h.clock, ?_, ?_, h.ends.2, ?_, ?_⟩
  · rw [hvarBase, hend]
  · rw [h.stackBase, hguard, hend, Nat.cast_add (_ + _)]
  · rw [hend, ← hvarBase]
    exact h.below
  · rwa [hend]

/-- The parts that were written one after another stand one behind another. -/
theorem memory_eq (hreserved : reserved < 2 ^ 31 → reserved = 0 ∨ 20 ≤ reserved) :
  image.memory = (header.booting reserved).memory (memoryBody config.memorySize
      (reservedBlock reserved) (build.survivors.flatMap build.blockOf)
      (varTotal build.objects build.objects.length Build.root))
    ∧ (reserved = 0 ∨ 20 ≤ reserved)
  := by
  obtain ⟨first, second, hfirst, hsecond, hlast⟩ := h.writes
  have hfinish := h.finish_lt hlaid hs hexact
  have hstart := h.tiles.start_le.1
  have hsmall : headerSize + reserved < 2 ^ 31 := by
    omega
  have hcases := hreserved (by omega)
  have hbytes : (build.survivors.map fun id =>
      (int32 (build.object id).address, build.blockOf id)).flatMap Prod.snd
      = build.survivors.flatMap build.blockOf := by
    rw [List.flatMap_map]
  have hlength := h.tiles.length_blocks
  rw [int32_natCast (by omega)] at hsecond
  rw [← hbytes]
  refine ⟨Header.written hcases hsmall (h.tiles.contiguous hexact.addresses) ?_ hfirst hsecond
    hlast, hcases⟩
  rw [hbytes, hlength, (h.guard_eq hlaid hs hexact).1]

end Image.Written

/-- What holds of an image and of the build it was written from: the block of every object that was
not replaced stands at the object's address. -/
structure Linked (laid : Build) (image : Image) (build : Build) : Prop where
  sharing : laid.Sharing build []
  holds : ∀ id < build.objects.length, (build.object id).replacement = none →
    Holds image.memory (build.object id).address (build.blockOf id)
  below : ∀ id < build.objects.length, (build.object id).replacement = none →
    (build.object id).address + (build.object id).size ≤ image.varBase

/-- Writing an image puts the block of every survivor at its address. -/
theorem Image.Written.linked {laid build : Build} {image : Image} {config : Config}
    {header : Header} {reserved finish : Nat}
    (h : image.Written config build reserved finish header)
    (hlaid : laid.Laid) (hs : laid.Sharing build []) (hexact : build.Exact)
    (hreserved : reserved < 2 ^ 31 → reserved = 0 ∨ 20 ≤ reserved) :
  Linked laid image build
  := by
  have hmem := (Build.survivors_spec (hs.order hlaid)).2
  obtain ⟨hmemory, hcases⟩ := h.memory_eq hlaid hs hexact hreserved
  obtain ⟨_, _, hblocks⟩ := Header.memory_holds hcases hmemory
  refine ⟨hs, ?_, ?_⟩
  · intro id hid hnone
    exact h.tiles.holds hblocks id ((hmem id).mpr ⟨hid, hnone⟩)
  · intro id hid hnone
    rw [(h.varBase_eq hlaid hs hexact).2]
    exact (h.tiles.start_le.2 id ((hmem id).mpr ⟨hid, hnone⟩)).2

/-! ### Compilations -/

theorem Config.memoryWord_eq {config : Config} (h : config.memorySize < 65536) :
  config.memoryWord = config.memorySize
  := by
  rw [memoryWord, int32_natCast (by omega)]

/-- Shares duplicates if the configuration asks for it. -/
def Step.share (config : Config) : Step Unit :=
  if config.shareDuplicates then ofState Build.shareDuplicates else pure ()

/-- Linking writes an image of a build in which duplicates may be shared. -/
theorem Step.yields_link {config : Config} {image : Image} {laid s' : Build} (hlaid : laid.Laid)
    (h : Yields (Step.link config) laid image s') :
  ∃ shared, Yields (share config) laid () shared ∧ laid.Sharing shared []
    ∧ Yields (Step.image config) shared image s'
  := by
  cases hshare : config.shareDuplicates with
  | false =>
    rw [Step.link, hshare] at h
    refine ⟨laid, ?_, Build.Sharing.of_laid hlaid [], h⟩
    rw [share, hshare]
    rfl
  | true =>
    rw [Step.link, hshare] at h
    obtain ⟨_, m, hshared, himage⟩ := yields_bind.mp h
    have hm : m = (Build.shareDuplicates.run laid).2 := by
      cases hshared
      rfl
    refine ⟨m, ?_, ?_, himage⟩
    · rw [share, hshare]
      exact hshared
    · rw [hm]
      apply Build.shareDuplicates_sharing hlaid

/-- Linking writes an image of the objects that were laid out, of which some may have been
replaced. -/
theorem Step.link_spec {config : Config} {image : Image} {laid s' : Build} (hlaid : laid.Laid)
    (h : Yields (Step.link config) laid image s') :
  laid.Sharing s' [] ∧ ∃ shared size m finish header, Yields (share config) laid () shared
    ∧ laid.Sharing shared [] ∧ shared.Agree Object.unplaced s' ∧ Yields reserved shared size m
    ∧ image.Written config s' size finish header
  := by
  obtain ⟨shared, hshare, hsharing, himage⟩ := yields_link hlaid h
  obtain ⟨hagree, hknown, size, m, finish, header, hreserved, hwritten⟩ :=
    image_spec hlaid hsharing himage
  exact ⟨hsharing.of_agree hagree hknown, shared, size, m, finish, header, hshare, hsharing, hagree,
    hreserved, hwritten⟩

/-- Linking writes an image of a laid out build, whether or not duplicates are shared. -/
theorem Step.link_within {config : Config} {image : Image} {laid s' : Build} (hlaid : laid.Laid)
    (h : Yields (Step.link config) laid image s') (hexact : s'.Exact) :
  Linked laid image s' ∧ (image.varBase : Int) < config.memoryWord
  := by
  obtain ⟨hsharing, _, _, _, _, _, _, _, _, hreserved, hwritten⟩ := link_spec hlaid h
  exact ⟨hwritten.linked hlaid hsharing hexact (reserved_room hreserved),
    (hwritten.headed hlaid hsharing hexact).below⟩

/-- In a memory of words the blocks lie where words can address them. -/
theorem Step.link_linked {config : Config} {image : Image} {laid s' : Build} (hlaid : laid.Laid)
    (h : Yields (Step.link config) laid image s') (hsize : config.memorySize < 65536)
    (hexact : s'.Exact) :
  Linked laid image s' ∧ image.varBase < 65536
  := by
  obtain ⟨hlinked, hword⟩ := link_within hlaid h hexact
  rw [Config.memoryWord_eq hsize] at hword
  exact ⟨hlinked, by omega⟩

/-- A compilation lays the objects out and then links them. -/
theorem Program.compile_spec {program : Program} {config : Config} {image : Image} {build : Build}
    (h : program.compile config = .ok (image, build)) :
  ∃ registered laid, program.register = .ok registered
    ∧ Yields (Step.build config) registered () laid
    ∧ Yields (Step.link config) laid image build ∧ laid.Laid
  := by
  obtain ⟨registered, hregister, h⟩ := ok_of_bind h
  obtain ⟨result, hresult, hpure⟩ := ok_of_bind h
  cases hpure
  have hrun : Yields (do Step.build config; Step.link config : Step Image) registered image
      ((do Step.build config; Step.link config : Step Image).run.run registered).2 :=
    Yields.of_result hresult
  obtain ⟨_, laid, hbuild, hlink⟩ := yields_bind.mp hrun
  exact ⟨registered, laid, hregister, hbuild, hlink,
    Step.build_laid (Program.register_spec hregister) hbuild⟩

end SpinHub
