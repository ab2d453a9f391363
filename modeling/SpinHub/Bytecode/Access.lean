import SpinHub.Word

/-!
# Accesses

An access loads, stores, modifies or takes the address of a byte, word or long. Its space
says what the address is counted from: nothing (the address is on the stack), the object,
the object's variables, or the frame of the running method. Longs at small offsets among
the variables and in the frame have one-byte forms.
-/

namespace SpinHub

/-- What an access does with the cell it names. -/
inductive Access where
  | load
  | store
  | modify
  | address
deriving DecidableEq

/-- What the offset of an access is counted from. -/
inductive Space where
  | memory
  | object
  | vars
  | frame
deriving DecidableEq

namespace Access

/-- The two low bits of an access opcode. -/
def code : Access → UInt8
  | .load => 0
  | .store => 1
  | .modify => 2
  | .address => 3

end Access

namespace Space

/-- The space number in a long access opcode. -/
def code : Space → UInt8
  | .memory => 0
  | .object => 1
  | .vars => 2
  | .frame => 3

/-- The opcode base of the one-byte forms, in the spaces that have them. -/
def shortBase? : Space → Option UInt8
  | .vars => some 0x40
  | .frame => some 0x60
  | .memory | .object => none

end Space

namespace Access

/-- The opcode that carries access, size, space and whether an index is on the stack. -/
def opcode (access : Access) (size : Int) (space : Space) (indexed : Bool) : UInt8 :=
  (0x80 : UInt8) ||| lowByte (size / 2 * 32) ||| (space.code <<< 2) ||| access.code |||
    (if indexed then 0x10 else 0)

/-- The offset operand: one byte below 128, otherwise two with the top bit set. -/
def offsetOperand (offset : Int) : Bytes :=
  if offset < 128 then [lowByte offset] else [highByte offset ||| 0x80, lowByte offset]

/-- The one-byte form, if the access has one: an unindexed long below offset 32 among the
variables or in the frame. -/
def shortBase? (size : Int) (space : Space) (offset : Int) (indexed : Bool) : Option UInt8 :=
  if offset < 32 ∧ size = 4 ∧ indexed = false then space.shortBase? else none

/-- The bytes of an access at a known offset. A short form at an offset that is not a
multiple of four does not exist. -/
def encode? (access : Access) (size : Int) (space : Space) (offset : Int) (indexed : Bool) :
    Option Bytes :=
  match shortBase? size space offset indexed with
  | some base =>
    if offset % 4 = 0 then some [base ||| access.code ||| lowByte offset] else none
  | none => some (access.opcode size space indexed :: offsetOperand offset)

/-- The opcode of an access through an address on the stack. -/
def throughAddress (access : Access) (size : Int) (indexed : Bool) : UInt8 :=
  access.opcode size .memory indexed

end Access

end SpinHub
