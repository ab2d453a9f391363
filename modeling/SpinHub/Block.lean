import SpinHub.Layout.Instances

/-!
# Blocks

A compiled object is a block of memory: the long of sizes, the slots of the methods, the
slots of the sub-object instances, the DAT section, and the code of the methods.
-/

namespace SpinHub

namespace Object

/-- The long of sizes: the bytes of the block, and the numbers of method and instance slots,
the first counting the long itself. -/
def sizesLong (object : Object) : Bytes :=
  halfword object.size ++ [lowByte (object.methods.length + 1), lowByte object.subSlots]

/-- The slots of the methods: their offsets and the bytes of their locals. -/
def methodSlots (object : Object) : Bytes :=
  object.methodTable.flatMap fun method => halfword method.offset ++ halfword method.localsSize

/-- The DAT section and the code of the methods. -/
def contents (object : Object) : Bytes :=
  object.datBytes ++ object.methodTable.flatMap (·.code)

end Object

namespace Build

/-- The slot of an instance in a block at hub address `base`: the address of the object's block
relative to this one, and the offset of its variables. -/
def entrySlot (build : Build) (base : Int) (entry : Entry) : Bytes :=
  halfword ((build.object entry.1).address - base) ++ halfword entry.2

/-- The block of an object at hub address `base`. -/
def block (id : ObjId) (base : Int) : StateM Build Bytes := do
  let build ← get
  let object := build.object id
  let slots ← entries id
  let bytes := object.sizesLong ++ object.methodSlots ++ slots.flatMap (build.entrySlot base) ++
    object.contents
  return bytes.resize object.size

end Build

end SpinHub
