import SpinHub.Bytecode.Push
import SpinHub.Error

/-!
# Code streams

A method is emitted as a stream of chunks: runs of final bytes, records that stand for a
jump or for the address of a target and whose width depends on where the target lands, and
marks that place the targets. `settle` alternates two passes, one that assigns addresses
from the current widths and one that encodes every record again, until neither changes
anything. Widths only grow.
-/

namespace SpinHub

/-- A target of a stream, numbered in the order of creation. -/
abbrev Target := Nat

/-- What a record stands for. -/
inductive RecordKind where
  /-- A jump with the given opcode, relative to the end of the record. -/
  | jump (opcode : UInt8)
  /-- A push of the target's address. -/
  | offset
  /-- A two-byte push of the address of a string. -/
  | stringOffset
deriving DecidableEq

/-- A place in the stream whose bytes depend on a target. -/
structure Record where
  kind : RecordKind
  target : Target
  bytes : Bytes
  address : Int := 0
deriving DecidableEq

/-- A piece of a stream. -/
inductive Chunk where
  | code (bytes : Bytes)
  | record (record : Record)
  | mark (target : Target)
deriving DecidableEq

/-- What is known of a target. -/
structure TargetState where
  address : Int := 0
  placed : Bool := false
deriving DecidableEq

/-- Relocatable code: chunks in order, and the targets they refer to. -/
structure Stream where
  chunks : List Chunk := []
  targets : List TargetState := []
deriving DecidableEq

/-- The opcode that pushes the address of a string. -/
def stringPush : UInt8 := 0x87

/-- The operand of a relative jump: one byte for displacements from -64 to 62, otherwise two
with the top bit of the first set for forward jumps. `long` asks for two bytes. -/
def jumpOperand (delta : Int) (long : Bool) : Bytes :=
  if 0 ≤ delta then
    if delta < 63 ∧ long = false then [lowByte delta]
    else [highByte delta ||| 0x80, lowByte delta]
  else if -64 ≤ delta ∧ long = false then [lowByte (delta + 128)]
  else [highByte delta, lowByte delta]

namespace Record

/-- The bytes of a record whose target has the given address. -/
def encode (record : Record) (target : Int) : Bytes :=
  match record.kind with
  | .jump opcode =>
    let length := record.bytes.length
    opcode :: jumpOperand (target - (record.address + length)) (length = 3)
  | .offset => Push.encode (BitVec.ofInt 32 target) record.bytes.length
  | .stringOffset => [stringPush, highByte target ||| 0x80, lowByte target]

end Record

namespace Chunk

/-- The bytes a chunk currently stands for. -/
def bytes : Chunk → Bytes
  | .code run => run
  | .record r => r.bytes
  | .mark _ => []

end Chunk

namespace Stream

/-! ### Building a stream -/

/-- Appends final bytes to a list of chunks, joining them with a run of bytes at its end. -/
def appendCode : List Chunk → Bytes → List Chunk
  | [], bytes => if bytes.isEmpty then [] else [.code bytes]
  | [.code code], bytes => [.code (code ++ bytes)]
  | chunk :: rest, bytes => chunk :: appendCode rest bytes

/-- Appends final bytes. -/
def code (stream : Stream) (bytes : Bytes) : Stream :=
  { stream with chunks := appendCode stream.chunks bytes }

/-- Appends the shortest push of a word. -/
def push (stream : Stream) (v : Word) : Stream := stream.code (Push.shortest v)

/-- A new target, not placed yet. -/
def newTarget (stream : Stream) : Target × Stream :=
  (stream.targets.length, { stream with targets := stream.targets ++ [{}] })

/-- Places a target at the end of the stream. -/
def place (stream : Stream) (target : Target) : Stream where
  chunks := stream.chunks ++ [.mark target]
  targets := stream.targets.modify target fun t => { t with placed := true }

/-- Appends a record with its first guess of bytes. -/
def addRecord (stream : Stream) (kind : RecordKind) (target : Target) (bytes : Bytes) : Stream :=
  { stream with chunks := stream.chunks ++ [.record { kind, target, bytes }] }

/-- Appends a jump to a target. -/
def jump (stream : Stream) (opcode : UInt8) (target : Target) : Stream :=
  stream.addRecord (.jump opcode) target [opcode, 0]

/-- Appends a push of a target's address. -/
def offset (stream : Stream) (target : Target) : Stream :=
  stream.addRecord .offset target [0, 0]

/-- Appends a push of the address of a string. -/
def stringOffset (stream : Stream) (target : Target) : Stream :=
  stream.addRecord .stringOffset target [stringPush, 0x80, 0]

/-! ### Reading a stream -/

/-- The bytes the stream currently stands for. -/
def toBytes (stream : Stream) : Bytes := stream.chunks.flatMap Chunk.bytes

/-- The number of bytes the stream currently stands for. -/
def length (stream : Stream) : Nat := total (stream.chunks.map fun c => c.bytes.length)

/-- The address of a target, zero before any is assigned. -/
def targetAddress (targets : List TargetState) (target : Target) : Int :=
  (targets[target]?.getD {}).address

/-! ### Settling widths and addresses -/

/-- Gives the chunks addresses from `address` on, by their current widths, and says whether
any address changed. -/
def assignFrom (address : Int) :
    List Chunk → List TargetState → List Chunk × List TargetState × Bool
  | [], targets => ([], targets, false)
  | .code bytes :: rest, targets =>
    let (rest, targets, changed) := assignFrom (address + bytes.length) rest targets
    (.code bytes :: rest, targets, changed)
  | .record record :: rest, targets =>
    let (rest, targets, changed) := assignFrom (address + record.bytes.length) rest targets
    (.record { record with address } :: rest, targets, record.address != address || changed)
  | .mark target :: rest, targets =>
    let moved := targetAddress targets target != address
    let (rest, targets, changed) :=
      assignFrom address rest (targets.modify target fun t => { t with address })
    (.mark target :: rest, targets, moved || changed)

/-- Gives every record and every placed target the address it has in a stream that starts at
`base`, and says whether any address changed. -/
def assign (stream : Stream) (base : Int) : Stream × Bool :=
  let (chunks, targets, changed) := assignFrom base stream.chunks stream.targets
  ({ chunks, targets }, changed)

/-- Encodes every record again and says whether any changed. A record that would get shorter
is an error; the records before it keep their new bytes. -/
def encodeRecords (targets : List TargetState) : List Chunk → List Chunk × Except Cause Bool
  | [] => ([], .ok false)
  | .record record :: rest =>
    let bytes := record.encode (targetAddress targets record.target)
    if bytes.length < record.bytes.length then
      (.record record :: rest,
        .error (.shrinkingRecord record.address record.bytes.length bytes.length))
    else
      let (rest, result) := encodeRecords targets rest
      (.record { record with bytes } :: rest, result.map (bytes != record.bytes || ·))
  | chunk :: rest =>
    let (rest, result) := encodeRecords targets rest
    (chunk :: rest, result)

/-- Encodes every record of the stream again and says whether any changed. -/
def resolve (stream : Stream) : Stream × Except Cause Bool :=
  let (chunks, result) := encodeRecords stream.targets stream.chunks
  ({ stream with chunks }, result)

/-- At most `rounds` rounds of assigning and encoding, until a round changes nothing; `limit`
is the number of rounds that a failure reports. -/
def settleRounds (base : Int) (limit : Nat) : Nat → Stream → Stream × Except Cause Unit
  | 0, stream => (stream, .error (.stillChanging limit))
  | rounds + 1, stream =>
    let (stream, moved) := stream.assign base
    match stream.resolve with
    | (stream, .error cause) => (stream, .error cause)
    | (stream, .ok resized) =>
      if moved || resized then settleRounds base limit rounds stream else (stream, .ok ())

/-- Settles a stream that starts at `base`, in at most `limit` rounds. Every target must be
placed. A failure keeps the addresses and widths reached so far. -/
def settle (stream : Stream) (base : Int) (limit : Nat) : Stream × Except Cause Unit :=
  match stream.targets.findIdx? (!·.placed) with
  | some target => (stream, .error (.unplacedTarget target))
  | none => settleRounds base limit limit stream

end Stream

end SpinHub
