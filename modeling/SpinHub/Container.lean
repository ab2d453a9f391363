import SpinHub.Block

/-!
# Containers

A container holds one compiled object with its exports and imports, so that it can be
linked without its source. All numbers are stored with the low byte first:

* `SOB1`, a long for the time, which is zero, and a long for the hash of the body;
* the number and the bytes of the exports, the number and the bytes of the imports, and the
  bytes of the body, each in two bytes;
* the sum of the body's bytes, a zero, and the bytes of variables in two bytes;
* the exports, the imports and the body.

The body is the object's block with zeros in the slots of sub-object instances.
-/

namespace SpinHub

/-- What an object offers to others. -/
inductive Export where
  | int (name : String) (value : Word)
  | float (name : String) (value : Single)
  | method (name : String) (index params : Nat)

/-- An object that an object includes, with its number of instances. -/
structure Import where
  name : String
  count : Nat

/-- The bytes of a name in UTF-8, and a zero. -/
def nameBytes (name : String) : Bytes := name.toList.flatMap String.utf8EncodeChar ++ [0]

namespace Export

/-- An export as it stands in a container. -/
def bytes : Export → Bytes
  | int name value => nameBytes name ++ [0] ++ value.littleEndian
  | float name value => nameBytes name ++ [1] ++ value.bits.littleEndian
  | method name index params => nameBytes name ++ [2, lowByte index, lowByte params]

/-- The export of a constant. -/
def ofValue (name : String) : Value → Export
  | .int w => int name w
  | .float x => float name x

end Export

namespace Import

/-- An import as it stands in a container. -/
def bytes (entry : Import) : Bytes := nameBytes entry.name ++ halfword entry.count ++ [0]

end Import

/-- The hash of bytes: the word so far is rotated by one bit before each byte is mixed in. -/
def rollingHash (bytes : Bytes) : Word :=
  bytes.foldl (fun hash b => hash.rotateLeft 1 ^^^ BitVec.ofNat 32 b.toNat) 0

/-- A compiled object with what it offers and needs. -/
structure Container where
  exports : List Export
  imports : List Import
  varSize : Nat
  body : Bytes

/-- A container as a file. -/
def Container.bytes (container : Container) : Bytes :=
  let exported := container.exports.flatMap Export.bytes
  let imported := container.imports.flatMap Import.bytes
  [0x53, 0x4f, 0x42, 0x31] ++ [0, 0, 0, 0] ++ (rollingHash container.body).littleEndian ++
    halfword container.exports.length ++ halfword exported.length ++
    halfword container.imports.length ++ halfword imported.length ++
    halfword container.body.length ++
    [container.body.sum, 0] ++ halfword container.varSize ++
    exported ++ imported ++ container.body

namespace Object

/-- The imports of an object. -/
def imports (object : Object) : List Import :=
  object.subs.map fun sub => { name := FileName.importName sub.file.name, count := sub.count }

/-- The exports of the public methods of an object. -/
def methodExports (object : Object) : List Export :=
  (object.methods.filter (·.isPublic)).map fun method =>
    .method (nameKey method.name.name) method.index method.params.length

/-- The block of an object with empty instance slots, filled up to a long. -/
def body (object : Object) : Bytes :=
  let bytes := object.sizesLong ++ object.methodSlots ++ List.replicate (4 * object.subSlots) 0 ++
    object.contents
  bytes.resize (roundLong bytes.length)

end Object

/-- The exports of the constants that an object declares. -/
def Site.conExports (site : Site) : Eval (List Export) :=
  (site.object.cons.zipIdx.filter (!·.1.builtin)).mapM fun (con, index) => do
    let v ← site.conValue site.obj index con
    return .ofValue (nameKey con.name.name) v

/-- The container of an object. -/
def Site.container (site : Site) : Eval Container := do
  let constants ← site.conExports
  let object := site.object
  return { exports := constants ++ object.methodExports, imports := object.imports
           varSize := object.varSize, body := object.body }

end SpinHub
