import SpinHub.Block
import SpinHub.Clock
import SpinHub.Duplicates

/-!
# Memory images

An image is the hub memory at boot: a header of 16 bytes, reserved space if any object asks
for it, the blocks of the objects that were not replaced, the variables of the root, the
guard under the stack, and zeros up to the end. One byte of the header makes the sum of all
bytes zero.

All of it is written into one memory, which is zero at first, and every part at an address
that was reckoned for it in 32 bits.
-/

namespace SpinHub

/-- The bytes of the boot header. -/
def headerSize : Nat := 16

/-- The bytes under the stack. -/
def stackGuard : Bytes := [0xff, 0xff, 0xf9, 0xff, 0xff, 0xff, 0xf9, 0xff]

/-- Code that calls the first method of the object in slot 2 and returns. -/
def spaceStub : Bytes := [0x01, 0x06, 0x02, 0x01, 0x32]

/-- A memory image. -/
structure Image where
  memory : Bytes
  varBase : Nat
  stackBase : Nat
  clock : Clock

namespace Image

/-- The program without its variables. -/
def program (image : Image) : Bytes := image.memory.take image.varBase

/-- The sixteen bits at an address. -/
def halfwordAt (image : Image) (address : Nat) : Nat :=
  (image.memory[address]?.getD 0).toNat + 256 * (image.memory[address + 1]?.getD 0).toNat

/-- Where the stack starts. -/
def initialSp (image : Image) : Nat := image.halfwordAt 14

end Image

/-! ### Writing -/

/-- Bytes and the address that they are written at. -/
abbrev Piece := Int × Bytes

namespace Config

/-- The memory size as a signed word, which sizes are compared with. -/
def memoryWord (config : Config) : Int := int32 config.memorySize

/-- Writes a piece over the memory, in which it has to lie. -/
def write (config : Config) (memory : Bytes) (piece : Piece) : Except Cause Bytes :=
  if 0 ≤ piece.1 ∧ piece.1 + piece.2.length ≤ config.memorySize then
    .ok (memory.overwrite piece.1.toNat piece.2)
  else .error (.outsideMemory piece.1)

/-- Writes pieces over the memory, one after another. -/
def writeAll (config : Config) (memory : Bytes) (pieces : List Piece) : Except Cause Bytes :=
  pieces.foldlM config.write memory

end Config

/-! ### Reserved space -/

/-- The bytes reserved for a number of bytes asked for: at least 12, in longs, and room for
the stub. -/
def reservedFor (asked : Int) : Int :=
  if 0 < asked then int32 (max (int32 (asked + 3) / 4 * 4) 12 + 8) else asked

/-- An object in front of all others that keeps the reserved space. Its only method is the stub
at its end, which execution starts with, and its slot 2 leads to the block behind it. -/
def reservedPieces (size : Int) : List Piece :=
  if 0 < size then
    let stub := int32 (headerSize + size - 8)
    [(16, halfword size), (18, [2]), (19, [1]), (20, halfword (stub - headerSize)),
      (24, halfword size), (stub, spaceStub), (12, halfword stub)]
  else []

/-- The bytes that an object asks for. -/
def Site.space (site : Site) : Eval Nat := do
  match ← site.setting "_SPACE" with
  | none => return 0
  | some setting =>
    if setting.value.toInt < 0 then inFile site.object.file (failAt setting.pos .negativeSpace)
    else return setting.value.toInt.toNat

namespace Step

/-- The bytes reserved for all objects, as an unsigned word. -/
def reserved : Step Nat := do
  let build ← get
  let asked ← build.order.mapM fun id => evaluateIn id Site.space
  return (reservedFor (int32 (total asked)) % 0x100000000).toNat

/-! ### Blocks -/

/-- Gives objects consecutive addresses from `address` on, and returns the address behind
them. -/
def assignAddresses : Nat → List ObjId → Step Nat
  | address, [] => return address
  | address, id :: rest => do
    modifyObject id fun object => { object with address }
    let object ← object id
    assignAddresses (address + object.size) rest

/-- The blocks of objects at their addresses. -/
def blocks (ids : List ObjId) : Step (List Piece) :=
  ids.mapM fun id => do
    let object ← object id
    let block ← ofState (Build.block id object.address)
    return (int32 object.address, block)

end Step

/-- The objects that were not replaced, in order of layout. -/
def Build.survivors (build : Build) : List ObjId :=
  build.order.filter fun id => (build.object id).replacement.isNone

/-! ### The image -/

/-- The numbers of an image besides the addresses of its blocks. -/
structure Header where
  clock : Clock
  /-- The end of the blocks. -/
  varBase : Int
  /-- The end of the variables. -/
  guard : Int
  stackBase : Int
  /-- The first method of the root. -/
  pc : Int
  sp : Int

/-- What is written besides the blocks and the reserved space: the header without its checksum,
and the guard. -/
def Header.pieces (header : Header) : List Piece :=
  [(0, header.clock.frequency.littleEndian), (4, [header.clock.mode]), (6, halfword headerSize),
    (8, halfword header.varBase), (header.guard, stackGuard), (10, halfword header.stackBase),
    (12, halfword header.pc), (14, halfword header.sp)]

/-- The byte of the header that makes the sum of all bytes zero. -/
def checksumPiece (memory : Bytes) : Piece := (5, [0 - Bytes.sum memory])

namespace Config

/-- Checks that the stack and the free space that the root asks for leave room for a program
that ends at `address`. Only the chip's own memory has such a budget. -/
def checkBudget (config : Config) (address free stack : Int) : Except Cause Unit :=
  if config.memorySize = hubSize then
    let excess := int32 (address.tdiv 4 + free + stack - 8192)
    if 8192 ≤ int32 (stack + free) then .error .stackTooLarge
    else if 0 < excess then .error (.programExceeds excess)
    else .ok ()
  else .ok ()

end Config

/-- Gives the objects that were not replaced their addresses and writes the image. -/
def Step.image (config : Config) : Step Image := do
  let reserved ← reserved
  let build ← get
  let finish ← assignAddresses (headerSize + reserved) build.survivors
  let varBase := int32 finish
  if config.memoryWord ≤ varBase then
    failAt {} (.programTooLarge varBase config.memoryWord)
  let blocks ← blocks build.survivors
  let memory ← liftAt {} (config.writeAll (List.replicate config.memorySize 0) blocks)
  let clock ← clock
  let varBytes ← ofState (Build.totalVarSize Build.root)
  let free ← evaluateIn Build.root fun site => site.settingOr "_FREE" 0
  let stack ← evaluateIn Build.root fun site => site.settingOr "_STACK" config.stackLongs
  let guard := int32 (varBase + varBytes)
  liftAt {} (config.checkBudget guard free stack)
  let stackBase := int32 (guard + stackGuard.length)
  if config.memoryWord < stackBase then
    failAt {} (.noRoomForGuard (guard % 0x100000000).toNat)
  let build ← get
  let root := build.object Build.root
  match root.firstPublic? with
  | none => failAt {} (.noPublicMethods root.file)
  | some first =>
    let header : Header :=
      { clock, varBase, guard, stackBase
        pc := (build.object (build.survivor Build.root)).address + first.offset
        sp := stackBase + first.frameSize }
    let memory ← liftAt {}
      (config.writeAll memory (header.pieces ++ reservedPieces (int32 reserved)))
    let memory ← liftAt {} (config.write memory (checksumPiece memory))
    return { memory, varBase := varBase.toNat, stackBase := stackBase.toNat, clock }

end SpinHub
