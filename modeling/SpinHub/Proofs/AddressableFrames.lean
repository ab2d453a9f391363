import Mathlib
import SpinHub.Proofs.KeyedBuilds
import SpinHub.Proofs.MemoryMap
import SpinHub.Proofs.SharedImages

/-!
# Addressable frames

The slots of a method lie inside of its frame. An access to a slot carries fifteen bits of its
offset, the table of the object sixteen bits of the size of the locals, and the header of the image
sixteen bits of the address behind the first frame. Nothing bounds a frame, so what is read back is
exact for frames below 32768 bytes and wraps for some that are longer.
-/

namespace SpinHub

open Bytes

/-! ### Operands -/

namespace Access

/-- Whether an opcode accesses the frame at an offset behind it. -/
def isFrame (opcode : UInt8) : Bool := opcode &&& 0x8c == 0x8c

/-- The offset of an access to the frame, read back from its bytes: five bits of a one-byte form,
seven bits of a short operand, and fifteen bits of a long one. -/
def frameOffset? : Bytes → Option Nat
  | [opcode] => if opcode &&& 0xe0 = 0x60 then some (opcode &&& 0x1c).toNat else none
  | [opcode, low] => if isFrame opcode ∧ low < 0x80 then some low.toNat else none
  | [opcode, high, low] =>
    if isFrame opcode ∧ 0x80 ≤ high then some ((high &&& 0x7f).toNat * 256 + low.toNat) else none
  | _ => none

/-- Every access to the frame at an offset is read back with this offset. -/
def Addresses (offset : Int) : Prop :=
  ∀ (access : Access) (size : Int) (indexed : Bool) (bytes : Bytes),
    access.encode? size .frame (int32 offset) indexed = some bytes →
      frameOffset? bytes = some offset.toNat

theorem or_and_mask (byte mask : UInt8) :
  (byte ||| mask) &&& mask = mask
  := by
  rw [← UInt8.toBitVec_inj]
  ext i hi
  simp only [UInt8.toBitVec_and, UInt8.toBitVec_or, BitVec.getElem_and, BitVec.getElem_or]
  grind

theorem isFrame_opcode (access : Access) (size : Int) (indexed : Bool) :
  isFrame (access.opcode size .frame indexed) = true
  := by
  have hmask : access.opcode size .frame indexed
      = (lowByte (size / 2 * 32) ||| access.code ||| if indexed then 0x10 else 0) ||| 0x8c := by
    have hbits : (0x8c : UInt8) = (0x80 : UInt8) ||| (Space.frame.code <<< 2) := rfl
    rw [opcode, hbits]
    ac_rfl
  rw [isFrame, hmask, or_and_mask]
  rfl

theorem frameOffset?_long {opcode : UInt8} (hopcode : isFrame opcode = true) {offset : Nat} :
  frameOffset? (opcode :: offsetOperand offset) = some (offset % 32768)
  := by
  have hlow := toNat_lowByte offset
  have hhigh := toNat_highByte offset
  rw [offsetOperand]
  split_ifs with hshort
  · have hbyte : lowByte offset < 0x80 := by
      rw [UInt8.lt_iff_toNat_lt]
      change _ < 128
      omega
    rw [frameOffset?, if_pos ⟨hopcode, hbyte⟩]
    congr 1
    omega
  · have htop := toNat_or_topBit (highByte offset)
    have hbyte : 0x80 ≤ highByte offset ||| 0x80 := by
      rw [UInt8.le_iff_toNat_le, htop]
      exact Nat.le_add_left _ _
    rw [frameOffset?, if_pos ⟨hopcode, hbyte⟩, toNat_and_lowBits, htop]
    congr 1
    omega

theorem frameOffset?_short (access : Access) {offset : Nat} (haligned : offset % 4 = 0)
    (hbelow : offset < 32) :
  frameOffset? [0x60 ||| access.code ||| lowByte offset] = some offset
  := by
  have table : ∀ k < 8, ∀ access : Access,
      frameOffset? [0x60 ||| access.code ||| lowByte (4 * k : Nat)] = some (4 * k) := by
    intro k hk access
    interval_cases k <;> cases access <;> decide
  obtain ⟨k, rfl⟩ : ∃ k, offset = 4 * k := ⟨offset / 4, by omega⟩
  apply table k (by omega)

/-- Fifteen bits of an offset are read back. -/
theorem frameOffset?_encode {access : Access} {size : Int} {offset : Nat} {indexed : Bool}
    {bytes : Bytes} (h : access.encode? size .frame offset indexed = some bytes) :
  frameOffset? bytes = some (offset % 32768)
  := by
  rw [encode?] at h
  split at h
  · rename_i base hbase
    rw [shortBase?] at hbase
    split_ifs at hbase with hshort
    cases hbase
    split_ifs at h with haligned
    cases h
    obtain ⟨hbelow, _⟩ := hshort
    rw [frameOffset?_short access (by omega) (by omega), Nat.mod_eq_of_lt (by omega)]
  · cases h
    exact frameOffset?_long (isFrame_opcode access size indexed)

/-- The frame can be accessed at an offset exactly if the offset has fifteen bits. -/
theorem addresses_iff {offset : Int} (hpos : 0 ≤ offset) (hexact : offset < 2 ^ 31) :
  Addresses offset ↔ offset < 32768
  := by
  lift offset to Nat using hpos
  rw [Addresses, int32_natCast (by omega)]
  constructor
  · intro h
    -- an indexed access always has an operand
    have hload := h .load 4 true (load.opcode 4 .frame true :: offsetOperand offset) (by
      simp [encode?, shortBase?])
    rw [frameOffset?_long (isFrame_opcode load 4 true), Option.some_inj] at hload
    omega
  · intro hbelow access size indexed bytes hbytes
    rw [frameOffset?_encode hbytes, Nat.mod_eq_of_lt (by omega)]
    rfl

end Access

/-! ### Slots -/

/-- The slots of a frame lie in its first `size` bytes. -/
def Scope.Within (scope : Scope) (size : Nat) : Prop :=
  ∀ entry ∈ scope, 0 ≤ entry.2 ∧ entry.2 + 4 ≤ size

namespace Scope

theorem Within.mono {scope : Scope} {size size' : Nat} (h : scope.Within size)
    (hle : size ≤ size') :
  scope.Within size'
  := by
  intro entry hentry
  obtain ⟨hpos, hend⟩ := h entry hentry
  exact ⟨hpos, by omega⟩

theorem add_within {scope scope' : Scope} {name : Ident} (offset : Nat) {size : Nat}
    {object : Object} (h : scope.Within size) (hoffset : offset + 4 ≤ size)
    (hadd : scope.add name offset object = .ok scope') :
  scope'.Within size
  := by
  rw [add] at hadd
  split_ifs at hadd
  cases hadd
  intro entry hentry
  rcases List.mem_append.mp hentry with hold | hnew
  · exact h entry hold
  · obtain rfl := List.mem_singleton.mp hnew
    exact ⟨Int.natCast_nonneg offset, by dsimp only; omega⟩

end Scope

theorem addParams_within {object : Object} {scope scope' : Scope} {offset : Nat}
    {params : List Ident} (h : scope.Within offset)
    (hadd : addParams object scope offset params = .ok scope') :
  scope'.Within (offset + 4 * params.length)
  := by
  induction params generalizing scope offset with
  | nil =>
    cases hadd
    exact h
  | cons param rest ih =>
    obtain ⟨next, hnext, hrest⟩ := ok_of_bind hadd
    have hnext := Scope.add_within offset (h.mono (Nat.le_add_right _ 4)) (Nat.le_refl _) hnext
    apply (ih hnext hrest).mono
    rw [List.length_cons]
    omega

theorem LocalDecl.longs_pos {decl : LocalDecl} {site : Site} {longs : Nat} {memo memo' : Memo}
    (h : Yields (decl.longs site) memo longs memo') :
  1 ≤ longs
  := by
  obtain ⟨count, m, _, hrest⟩ := yields_bind.mp h
  split_ifs at hrest with hcount
  · cases yields_failAt hrest
  · obtain ⟨rfl, _⟩ := yields_pure.mp hrest
    omega

theorem addLocals_within {site : Site} {base : Nat} {frame frame' : Frame}
    {locals : List LocalDecl} {memo memo' : Memo} (h : frame.scope.Within (base + frame.localsSize))
    (hadd : Yields (addLocals site base frame locals) memo frame' memo') :
  frame'.scope.Within (base + frame'.localsSize)
  := by
  induction locals generalizing frame memo with
  | nil =>
    obtain ⟨rfl, _⟩ := yields_pure.mp hadd
    exact h
  | cons decl rest ih =>
    obtain ⟨longs, m₁, hlongs, hadd⟩ := yields_bind.mp hadd
    obtain ⟨scope, m₂, hscope, hrest⟩ := yields_bind.mp hadd
    obtain ⟨hscope, _⟩ := yields_liftM.mp hscope
    have hpos := LocalDecl.longs_pos hlongs
    apply ih _ hrest
    apply Scope.add_within _ (h.mono (by dsimp only; omega)) _ hscope
    dsimp only
    omega

namespace Method

/-- The slots of a frame lie inside of it: the result, the parameters and the locals. -/
theorem frame_within {method : Method} {site : Site} {frame : Frame} {memo memo' : Memo}
    (h : Yields (method.frame site) memo frame memo') :
  frame.scope.Within (4 + 4 * method.params.length + frame.localsSize)
  := by
  rw [frame_eq] at h
  obtain ⟨start, m₁, hstart, h⟩ := yields_bind.mp h
  obtain ⟨hstart, _⟩ := yields_liftM.mp hstart
  obtain ⟨scope, m₂, hparams, h⟩ := yields_bind.mp h
  obtain ⟨hparams, _⟩ := yields_liftM.mp hparams
  obtain ⟨full, m₃, hlocals, h⟩ := yields_bind.mp h
  have hresult : start.Within 4 := by
    have hempty : Scope.Within [] 4 := fun _ hentry => absurd hentry List.not_mem_nil
    rw [resultScope] at hstart
    split at hstart
    · exact Scope.add_within 0 hempty (Nat.le_refl 4) hstart
    · cases hstart
      exact hempty
  have hfull := addLocals_within (addParams_within hresult hparams) hlocals
  split_ifs at h
  · obtain ⟨named, m₄, hnamed, hpure⟩ := yields_bind.mp h
    obtain ⟨hnamed, _⟩ := yields_liftM.mp hnamed
    obtain ⟨rfl, _⟩ := yields_pure.mp hpure
    apply Scope.add_within 0 hfull _ hnamed
    omega
  · obtain ⟨rfl, _⟩ := yields_pure.mp h
    exact hfull

/-- A method is compiled by making its frame and writing its body with the names of the frame. -/
theorem yields_compile {method : Method} {config : Config} {site : Site} {base : Int}
    {compiled : CompiledMethod} {memo memo' : Memo}
    (h : Yields (method.compile config site base) memo compiled memo') :
  ∃ frame draft m m', Yields (method.frame site) memo frame m
    ∧ Yields (Site.draft { site with scope := frame.scope } method.body) m draft m'
    ∧ draft.finish base config.roundLimit = .ok compiled.code
    ∧ frame.localsSize = compiled.localsSize
  := by
  obtain ⟨frame, m₁, hframe, hrest⟩ := yields_bind.mp h
  obtain ⟨draft, m₂, hdraft, hrest⟩ := yields_bind.mp hrest
  obtain ⟨code, m₃, hfinish, hpure⟩ := yields_bind.mp hrest
  obtain ⟨hfinish, _⟩ := yields_liftAt.mp hfinish
  obtain ⟨rfl, _⟩ := yields_pure.mp hpure
  exact ⟨frame, draft, m₁, m₂, hframe, hdraft, hfinish, rfl⟩

/-- The code of a method was written with a frame, and the bytes of its locals are those of the
frame. -/
def FramedIn (method : Method) (config : Config) (build : Build) (id : ObjId) (frame : Frame) :
    Prop :=
  ∃ memo memo' memo'' draft, Yields (method.frame (build.site id)) memo frame memo'
    ∧ Yields (Site.draft { build.site id with scope := frame.scope } method.body) memo' draft memo''
    ∧ draft.finish method.offset config.roundLimit = .ok method.code
    ∧ frame.localsSize = method.localsSize

theorem FilledIn.framed {method : Method} {config : Config} {build : Build} {id : ObjId}
    (h : method.FilledIn config build id) :
  ∃ frame, method.FramedIn config build id frame
  := by
  obtain ⟨compiled, memo, hcompile, hcode, hlocals⟩ := h
  obtain ⟨frame, draft, m₁, m₂, hframe, hdraft, hfinish, hsize⟩ := yields_compile hcompile
  rw [hcode] at hfinish
  exact ⟨frame, build.memo, m₁, m₂, draft, hframe, hdraft, hfinish, hsize.trans hlocals⟩

theorem FramedIn.within {method : Method} {config : Config} {build : Build} {id : ObjId}
    {frame : Frame} (h : method.FramedIn config build id frame) :
  frame.scope.Within method.frameSize
  := by
  obtain ⟨_, _, _, _, hframe, _, _, hlocals⟩ := h
  have hsize : method.frameSize = 4 + 4 * method.params.length + frame.localsSize := by
    rw [frameSize, hlocals]
    omega
  rw [hsize]
  exact frame_within hframe

theorem FramedIn.addresses_iff {method : Method} {config : Config} {build : Build} {id : ObjId}
    {frame : Frame} (h : method.FramedIn config build id frame) (hexact : method.frameSize < 2 ^ 31)
    {entry : String × Int} (hentry : entry ∈ frame.scope) :
  Access.Addresses entry.2 ↔ entry.2 < 32768
  := by
  obtain ⟨hpos, hend⟩ := h.within entry hentry
  exact Access.addresses_iff hpos (by omega)

/-- All slots of a frame below 32768 bytes can be accessed. -/
theorem FramedIn.addresses {method : Method} {config : Config} {build : Build} {id : ObjId}
    {frame : Frame} (h : method.FramedIn config build id frame) (hsize : method.frameSize < 32768)
    {entry : String × Int} (hentry : entry ∈ frame.scope) :
  Access.Addresses entry.2
  := by
  obtain ⟨_, hend⟩ := h.within entry hentry
  rw [h.addresses_iff (by omega) hentry]
  omega

end Method

/-! ### Words of the image -/

theorem Object.Slotted.index_le {object : Object} (h : object.Slotted) {method : Method}
    (hmethod : method ∈ object.methods) :
  method.index ≤ object.methods.length
  := by
  rw [← object.methodTable_perm.mem_iff] at hmethod
  have hindex := List.mem_map_of_mem (f := Method.index) hmethod
  rw [h.methods, List.mem_range'_1] at hindex
  omega

/-- What a block holds beside the relative addresses is held by the block that stands for it. -/
theorem Linked.survivor_holds {laid build : Build} {image : Image} (hlaid : laid.Laid)
    (h : Linked laid image build) {id : ObjId} (hid : id < laid.objects.length) {offset : Nat}
    {bytes : Bytes} (hbytes : Holds (laid.blockOf id) offset bytes)
    (hrelative : ∀ k < bytes.length,
      ¬ RelativeByte ((laid.object id).methods.length + 1) (laid.object id).subSlots (offset + k)) :
  image.memory.Holds ((build.object (build.survivor id)).address + offset) bytes
  := by
  obtain ⟨_, hsurvivor⟩ := h.survivor_bytes hlaid hid
  rw [Holds, List.prefix_iff_getElem?]
  intro k hk
  have hinside : (laid.blockOf id)[offset + k]? = some bytes[k] := by
    rw [hbytes.getElem? hk, List.getElem?_eq_getElem hk]
  obtain ⟨hlt, _⟩ := List.getElem?_eq_some_iff.mp hinside
  rw [Build.length_blockOf] at hlt
  rw [List.getElem?_drop, ← hinside, Nat.add_assoc]
  apply hsurvivor _ hlt (hrelative k hk)

/-- The block that stands for an object holds sixteen bits of the size of a method's locals. -/
theorem Linked.survivor_locals {laid build : Build} {image : Image} (hlaid : laid.Laid)
    (h : Linked laid image build) {id : ObjId} (hid : id < laid.objects.length) {method : Method}
    (hmethod : method ∈ (laid.object id).methods) :
  image.halfwordAt ((build.object (build.survivor id)).address + 4 * method.index + 2)
    = method.localsSize % 65536
  := by
  have hcompiled := hlaid.compiled id hid
  have hindex := hcompiled.index_le hmethod
  obtain ⟨_, hlocals⟩ := holds_append.mp (Build.blockOf_method hcompiled hmethod).1
  rw [length_halfword] at hlocals
  -- relative addresses are behind the slots of the methods
  have hholds := h.survivor_holds hlaid hid hlocals (by
    rintro k hk ⟨hfrom, _⟩
    rw [length_halfword] at hk
    omega)
  have hword := Image.halfwordAt_of_holds hholds
  rw [← Nat.add_assoc] at hword
  omega

theorem Header.memory_sp {header : Header} {body memory : Bytes} (h : memory = header.memory body) :
  Holds memory 14 (halfword header.sp)
  := by
  rw [h, Header.memory]
  generalize 0 - Bytes.sum _ = checksum
  have hheader := holds_zero_append (header.bytes checksum) body
  have hsp : Holds (header.bytes checksum) 14 (halfword header.sp) := holds_append_right _ _
  have hinside := hheader.inside hsp
  rwa [Nat.zero_add] at hinside

/-- The stack of an image starts behind the frame of the root's first public method. -/
theorem Image.Written.initialSp {laid build : Build} {image : Image} {config : Config}
    {header : Header} {reserved finish : Nat}
    (h : image.Written config build reserved finish header)
    (hlaid : laid.Laid) (hs : laid.Sharing build []) (hexact : build.Exact)
    (hreserved : reserved < 2 ^ 31 → reserved = 0 ∨ 20 ≤ reserved)
    (hsize : config.memorySize < 65536) :
  image.stackBase ≤ config.memorySize
    ∧ ∃ first, (build.object Build.root).firstPublic? = some first
      ∧ image.initialSp = (image.stackBase + first.frameSize) % 65536
  := by
  have hheaded := h.headed hlaid hs hexact
  obtain ⟨hstackBase, hend⟩ := hheaded.stackBase_eq hsize
  obtain ⟨first, hfirst, hsp, _⟩ := h.entry
  refine ⟨hend.le.trans hheaded.room, first, hfirst, ?_⟩
  have hholds := Header.memory_sp (h.memory_eq hlaid hs hexact hreserved).1
  have hbooting : (header.booting reserved).sp = header.sp := by
    rw [header.booting_eq]
  rw [hbooting, hsp, hstackBase] at hholds
  have hword := Image.halfwordAt_of_holds hholds
  rw [Image.initialSp]
  omega

/-! ### Programs -/

namespace Program

/-- What can be addressed of the frames of a program. The slots of a method lie inside of its frame,
and an access reads a slot back exactly if its offset has fifteen bits. The table of the object
holds sixteen bits of the size of the locals, and the stack of the root's first public method starts
behind its frame, in sixteen bits. So all is exact for frames below 32768 bytes, in a build within
32 bits. -/
theorem compile_frames {program : Program} {image : Image} {build : Build}
    (h : program.compile {} = .ok (image, build)) (hexact : build.Exact) :
  (∀ id < build.objects.length, ∀ method ∈ (build.object id).methods, ∃ origin frame,
    method.FramedIn {} origin id frame ∧ frame.scope.Within method.frameSize
    ∧ (∀ entry ∈ frame.scope, Access.Addresses entry.2 ↔ entry.2 < 32768)
    ∧ image.halfwordAt ((build.object (build.survivor id)).address + 4 * method.index + 2)
      = method.localsSize % 65536
    ∧ (method.frameSize < 32768 → (∀ entry ∈ frame.scope, Access.Addresses entry.2)
      ∧ image.halfwordAt ((build.object (build.survivor id)).address + 4 * method.index + 2)
        = method.localsSize))
  ∧ ∃ first, (build.object Build.root).firstPublic? = some first
    ∧ image.initialSp = (image.stackBase + first.frameSize) % 65536
    ∧ (first.frameSize < 32768 → image.initialSp = image.stackBase + first.frameSize)
  := by
  obtain ⟨registered, laid, hregister, hbuild, hlink, hlaid⟩ := compile_spec h
  obtain ⟨hlinked, _⟩ := Step.link_linked hlaid hlink (by decide) hexact
  obtain ⟨hsharing, _, _, _, _, _, _, _, _, hreserved, hwritten⟩ := Step.link_spec hlaid hlink
  obtain ⟨hroom, first, hfirst, hsp⟩ := hwritten.initialSp hlaid hsharing hexact
    (Step.reserved_room hreserved) (by decide)
  have hagree := hlinked.sharing.agree
  constructor
  · intro id hid method hmethod
    have hframe := hexact.frames id hid method hmethod
    rw [hagree.length] at hid
    have hmethods : (build.object id).methods = (laid.object id).methods :=
      (congrArg Object.methods (hagree.objects id) :)
    rw [hmethods] at hmethod
    obtain ⟨_, hfilled⟩ := (Step.build_filled (register_spec hregister) hbuild).2 id hid
    obtain ⟨origin, _, hin⟩ := hfilled method hmethod
    obtain ⟨frame, hframed⟩ := hin.framed
    have hlocals := hlinked.survivor_locals hlaid hid hmethod
    refine ⟨origin, frame, hframed, hframed.within, fun _ => hframed.addresses_iff hframe,
      hlocals, ?_⟩
    intro hsize
    refine ⟨fun _ => hframed.addresses hsize, ?_⟩
    rw [hlocals, Nat.mod_eq_of_lt]
    rw [Method.frameSize] at hsize
    omega
  · refine ⟨first, hfirst, hsp, ?_⟩
    intro hsize
    have hhub : image.stackBase ≤ 32768 := hroom
    rw [hsp, Nat.mod_eq_of_lt]
    omega

/-- A program with a buffer among the locals, in front of the last one. -/
def bufferProgram (longs : Word) : Program :=
  { root := "top"
    objects := [
      { file := "top"
        methods := [
          { name := { name := "start" }, isPublic := true
            locals := [
              { name := { name := "buffer" }, count := some (.int {} longs) },
              { name := { name := "last" } }]
            body := [.exp {} (.assign {} none (.name {} "last") (.int {} 7))] }] }] }

theorem compile_frames_buffer :
  ∃ image build method, (bufferProgram 20).compile {} = .ok (image, build) ∧ build.Exact
    ∧ (build.object Build.root).firstPublic? = some method ∧ method.frameSize = 88
    ∧ (∃ origin frame, method.FramedIn {} origin Build.root frame
      ∧ ∀ entry ∈ frame.scope, Access.Addresses entry.2)
    ∧ image.halfwordAt ((build.object (build.survivor Build.root)).address + 4 * method.index + 2)
      = method.localsSize
    ∧ image.initialSp = image.stackBase + 88
  := by
  obtain ⟨⟨image, build⟩, h, hbuild, hroot, hsize⟩ :
      ∃ result, (bufferProgram 20).compile {} = .ok result ∧ result.2.Exact
        ∧ Build.root < result.2.objects.length
        ∧ (result.2.object Build.root).firstPublic?.map (·.frameSize) = some 88 := by
    decide +kernel
  obtain ⟨hframes, method, hfirst, _, hsp⟩ := compile_frames h hbuild
  dsimp only at hsize
  rw [hfirst, Option.map_some, Option.some_inj] at hsize
  have hbelow : method.frameSize < 32768 := by omega
  have hmem : method ∈ (build.object Build.root).methods := List.mem_of_find?_eq_some hfirst
  obtain ⟨origin, frame, hframed, _, _, _, hexact⟩ := hframes Build.root hroot method hmem
  obtain ⟨haddresses, hlocals⟩ := hexact hbelow
  refine ⟨image, build, method, h, hbuild, hfirst, hsize, ⟨origin, frame, hframed, haddresses⟩,
    hlocals, ?_⟩
  rw [hsp hbelow, hsize]

/-- Nothing bounds a frame: a program compiles whose last local is at offset 65540 and is stored at
offset 4, with locals of 65540 bytes of which the table counts 4, and with a stack that starts below
the frame's end. -/
theorem frame_beyond_word :
  ∃ image build, (bufferProgram 16384).compile {} = .ok (image, build)
    ∧ ∃ method, (build.object Build.root).firstPublic? = some method
      ∧ method.frameSize = 65544 ∧ method.localsSize = 65540
      ∧ method.code = [0x37, 0x22, 0xcd, 0x80, 0x04, 0x32]
      ∧ Access.frameOffset? [0xcd, 0x80, 0x04] = some 4
      ∧ image.halfwordAt ((build.object Build.root).address + 4 * method.index + 2) = 4
      ∧ image.stackBase = 40 ∧ image.initialSp = 48
  := by
  obtain ⟨⟨image, build⟩, h, hfirst⟩ :
      ∃ result, (bufferProgram 16384).compile {} = .ok result
        ∧ ∃ method ∈ (result.2.object Build.root).firstPublic?,
          method.frameSize = 65544 ∧ method.localsSize = 65540
          ∧ method.code = [0x37, 0x22, 0xcd, 0x80, 0x04, 0x32]
          ∧ Access.frameOffset? [0xcd, 0x80, 0x04] = some 4
          ∧ result.1.halfwordAt ((result.2.object Build.root).address + 4 * method.index + 2) = 4
          ∧ result.1.stackBase = 40 ∧ result.1.initialSp = 48 := by
    decide +kernel
  exact ⟨image, build, h, hfirst⟩

end Program

end SpinHub
