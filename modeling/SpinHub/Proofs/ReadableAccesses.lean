import Mathlib
import SpinHub.Bytecode.Access
import SpinHub.Proofs.Bytes
import SpinHub.Syntax

/-!
# Readable accesses

The bytes of an access at a known offset say what the access is and where they end. The opcode
holds access, space, index and size in bits of their own, one-byte forms stand below 128, and the
first byte of the operand tells whether a second one follows. So `read?` finds the access in front
of any bytes, and no access is written as the beginning of another one.
-/

namespace SpinHub

/-! ### Numbers in opcodes -/

/-- The access with a number in an opcode. -/
def Access.ofCode : Nat → Access
  | 0 => .load
  | 1 => .store
  | 2 => .modify
  | _ => .address

/-- The space with a number in an opcode. -/
def Space.ofCode : Nat → Space
  | 0 => .memory
  | 1 => .object
  | 2 => .vars
  | _ => .frame

/-- The number of a size in an opcode. -/
def Size.code : Size → Nat
  | .byte => 0
  | .word => 1
  | .long => 2

/-- The size with a number in an opcode, if there is one. -/
def Size.ofCode? : Nat → Option Size
  | 0 => some .byte
  | 1 => some .word
  | 2 => some .long
  | _ => none

@[simp]
theorem Access.ofCode_code (access : Access) :
  ofCode access.code.toNat = access
  := by
  cases access <;> rfl

@[simp]
theorem Space.ofCode_code (space : Space) :
  ofCode space.code.toNat = space
  := by
  cases space <;> rfl

@[simp]
theorem Size.ofCode?_code (size : Size) :
  ofCode? size.code = some size
  := by
  cases size <;> rfl

theorem Access.code_lt (access : Access) :
  access.code.toNat < 4
  := by
  cases access <;> decide

theorem Space.code_lt (space : Space) :
  space.code.toNat < 4
  := by
  cases space <;> decide

theorem Size.code_lt (size : Size) :
  size.code < 3
  := by
  cases size <;> decide

/-! ### Accesses to cells -/

/-- An access to a cell at an offset of fifteen bits. -/
structure CellAccess where
  access : Access
  size : Size
  space : Space
  offset : Fin 32768
  /-- Whether an index is on the stack. -/
  indexed : Bool
deriving DecidableEq

namespace CellAccess

/-- The bytes of the access. -/
def bytes? (cell : CellAccess) : Option Bytes :=
  cell.access.encode? cell.size.bytes cell.space cell.offset.val cell.indexed

/-- Whether the access takes the one-byte form: a long among the variables or in the frame, without
an index and at an offset below 32. -/
def IsShort (cell : CellAccess) : Prop :=
  cell.indexed = false ∧ cell.size = .long ∧ (cell.space = .vars ∨ cell.space = .frame)
    ∧ cell.offset.val < 32

/-! ### Writing -/

theorem shortBase?_eq_none_iff {cell : CellAccess} :
  Access.shortBase? cell.size.bytes cell.space cell.offset.val cell.indexed = none
    ↔ ¬cell.IsShort
  := by
  obtain ⟨access, size, space, offset, indexed⟩ := cell
  have hlong : (size.bytes : Int) = 4 ↔ size = .long := by
    cases size <;> decide
  have hbase : space.shortBase? = none ↔ ¬(space = .vars ∨ space = .frame) := by
    cases space <;> decide
  rw [Access.shortBase?, IsShort, ite_eq_right_iff, hbase, hlong]
  norm_cast
  tauto

/-- Other accesses have an opcode and an operand. -/
theorem bytes?_long {cell : CellAccess} (h : ¬cell.IsShort) :
  cell.bytes? = some (cell.access.opcode cell.size.bytes cell.space cell.indexed
    :: Access.offsetOperand cell.offset.val)
  := by
  rw [bytes?, Access.encode?, shortBase?_eq_none_iff.mpr h]

/-- A short form exists at multiples of four. -/
theorem bytes?_short {cell : CellAccess} (h : cell.IsShort) :
  ∃ base, cell.space.shortBase? = some base
    ∧ cell.bytes? = if 4 ∣ cell.offset.val
        then some [base ||| cell.access.code ||| lowByte cell.offset.val] else none
  := by
  cases hbase : Access.shortBase? cell.size.bytes cell.space cell.offset.val cell.indexed with
  | none => exact absurd h (shortBase?_eq_none_iff.mp hbase)
  | some base =>
    use base
    constructor
    · rw [Access.shortBase?] at hbase
      split_ifs at hbase
      exact hbase
    · rw [bytes?, Access.encode?, hbase]
      apply if_congr _ rfl rfl
      omega

/-- An access cannot be written exactly if it would be short and stands at no multiple of four. -/
theorem bytes?_eq_none_iff {cell : CellAccess} :
  cell.bytes? = none ↔ cell.IsShort ∧ ¬4 ∣ cell.offset.val
  := by
  by_cases h : cell.IsShort
  · obtain ⟨base, _, hbytes⟩ := bytes?_short h
    rw [hbytes, ite_eq_right_iff]
    simp [h]
  · rw [bytes?_long h]
    simp [h]

/-! ### Reading -/

/-- The offset that an operand at the front of some bytes holds, and the length of the operand. -/
def readOffset? : Bytes → Option (Nat × Nat)
  | [] => none
  | first :: rest =>
    if first < 0x80 then some (first.toNat, 1)
    else rest.head?.map fun low => ((first &&& 0x7f).toNat * 256 + low.toNat, 2)

/-- The access that a one-byte form stands for. -/
def ofShort (opcode : Nat) : CellAccess where
  access := .ofCode (opcode % 4)
  size := .long
  space := if opcode < 96 then .vars else .frame
  offset := Fin.ofNat 32768 (opcode % 32 / 4 * 4)
  indexed := false

/-- The access that an opcode with an operand stands for, and the length of its form. -/
def ofLong? (opcode : Nat) (rest : Bytes) : Option (CellAccess × Nat) := do
  let size ← Size.ofCode? (opcode / 32 % 4)
  let operand ← readOffset? rest
  return (
    { access := .ofCode (opcode % 4)
      size
      space := .ofCode (opcode / 4 % 4)
      offset := Fin.ofNat 32768 operand.1
      indexed := opcode / 16 % 2 == 1 }, operand.2 + 1)

/-- The access at the front of some bytes, and the length of its form. -/
def read? : Bytes → Option (CellAccess × Nat)
  | [] => none
  | opcode :: rest =>
    if opcode < 0x40 then none
    else if opcode < 0x80 then some (ofShort opcode.toNat, 1)
    else ofLong? opcode.toNat rest

theorem readOffset?_offsetOperand (offset : Fin 32768) (rest : Bytes) :
  readOffset? (Access.offsetOperand offset.val ++ rest)
    = some (offset.val, (Access.offsetOperand offset.val).length)
  := by
  have hlow := toNat_lowByte offset.val
  have hhigh := toNat_highByte offset.val
  rw [Access.offsetOperand]
  split_ifs with hshort
  · have hbyte : lowByte offset.val < 0x80 := by
      rw [UInt8.lt_iff_toNat_lt]
      change _ < 128
      omega
    rw [List.cons_append, readOffset?, if_pos hbyte]
    congr 2
    omega
  · have htop := toNat_or_topBit (highByte offset.val)
    have hbyte : ¬highByte offset.val ||| 0x80 < 0x80 := by
      rw [UInt8.lt_iff_toNat_lt, htop]
      exact Nat.not_lt.mpr (Nat.le_add_left _ _)
    rw [List.cons_append, List.cons_append, readOffset?, if_neg hbyte, List.head?_cons,
      Option.map_some, toNat_and_lowBits, htop]
    congr 2
    omega

/-- The fields of an opcode stand in bits of their own. -/
theorem toNat_opcode (access : Access) (size : Size) (space : Space) (indexed : Bool) :
  (access.opcode size.bytes space indexed).toNat
    = 128 + 32 * size.code + 16 * indexed.toNat + 4 * space.code.toNat + access.code.toNat
  := by
  cases access <;> cases size <;> cases space <;> cases indexed <;> decide

theorem toNat_shortOpcode {space : Space} {base : UInt8} (hbase : space.shortBase? = some base)
    (access : Access) {offset : Nat} (hbelow : offset < 32) (haligned : 4 ∣ offset) :
  (base ||| access.code ||| lowByte offset).toNat
    = (if space = .vars then 64 else 96) + offset + access.code.toNat
  := by
  obtain ⟨k, rfl⟩ := haligned
  have hk : k < 8 := by omega
  cases space <;> cases hbase
  · interval_cases k <;> cases access <;> decide
  · interval_cases k <;> cases access <;> decide

theorem ofLong?_opcode (cell : CellAccess) (rest : Bytes) :
  ofLong? (cell.access.opcode cell.size.bytes cell.space cell.indexed).toNat
      (Access.offsetOperand cell.offset.val ++ rest)
    = some (cell, (Access.offsetOperand cell.offset.val).length + 1)
  := by
  have haccess := cell.access.code_lt
  have hspace := cell.space.code_lt
  have hsize := cell.size.code_lt
  have hindexed : cell.indexed.toNat < 2 := cell.indexed.toNat_lt
  have hbit : (cell.indexed.toNat == 1) = cell.indexed := by
    cases cell.indexed <;> rfl
  rw [toNat_opcode]
  generalize hn : 128 + 32 * cell.size.code + 16 * cell.indexed.toNat + 4 * cell.space.code.toNat
    + cell.access.code.toNat = n
  have hfields : n % 4 = cell.access.code.toNat ∧ n / 4 % 4 = cell.space.code.toNat
      ∧ n / 16 % 2 = cell.indexed.toNat ∧ n / 32 % 4 = cell.size.code := by
    omega
  obtain ⟨h1, h2, h3, h4⟩ := hfields
  simp [ofLong?, readOffset?_offsetOperand, h1, h2, h3, h4, hbit]

theorem ofShort_opcode {cell : CellAccess} (h : cell.IsShort) (haligned : 4 ∣ cell.offset.val) :
  ofShort ((if cell.space = .vars then 64 else 96) + cell.offset.val + cell.access.code.toNat)
    = cell
  := by
  obtain ⟨hindexed, hsize, hspace, hbelow⟩ := h
  have haccess := cell.access.code_lt
  generalize hn : (if cell.space = .vars then 64 else 96) + cell.offset.val
    + cell.access.code.toNat = n
  have hfields : n % 4 = cell.access.code.toNat ∧ n % 32 / 4 * 4 = cell.offset.val
      ∧ (if n < 96 then Space.vars else .frame) = cell.space := by
    rcases hspace with hvars | hframe
    · rw [hvars, if_pos rfl] at hn
      rw [hvars, if_pos (by omega)]
      exact ⟨by omega, by omega, rfl⟩
    · rw [hframe, if_neg (by decide)] at hn
      rw [hframe, if_neg (by omega)]
      exact ⟨by omega, by omega, rfl⟩
  obtain ⟨h1, h2, h3⟩ := hfields
  simp [ofShort, h1, h2, h3, ← hindexed, ← hsize]

/-- An access is read back from the front of any bytes that start with its form. -/
theorem read?_bytes {cell : CellAccess} {bytes : Bytes} (h : cell.bytes? = some bytes)
    (rest : Bytes) :
  read? (bytes ++ rest) = some (cell, bytes.length)
  := by
  by_cases hshort : cell.IsShort
  · obtain ⟨base, hbase, hbytes⟩ := bytes?_short hshort
    rw [hbytes] at h
    split_ifs at h with haligned
    cases h
    have hopcode := toNat_shortOpcode hbase cell.access hshort.2.2.2 haligned
    have haccess := cell.access.code_lt
    have hbelow := hshort.2.2.2
    have hrange : ¬base ||| cell.access.code ||| lowByte cell.offset.val < 0x40
        ∧ base ||| cell.access.code ||| lowByte cell.offset.val < 0x80 := by
      rw [UInt8.lt_iff_toNat_lt, UInt8.lt_iff_toNat_lt, hopcode]
      change ¬_ < 64 ∧ _ < 128
      split_ifs <;> omega
    rw [List.cons_append, read?, if_neg hrange.1, if_pos hrange.2, hopcode,
      ofShort_opcode hshort haligned]
    rfl
  · rw [bytes?_long hshort] at h
    cases h
    have hopcode := toNat_opcode cell.access cell.size cell.space cell.indexed
    have hrange : ¬cell.access.opcode cell.size.bytes cell.space cell.indexed < 0x40
        ∧ ¬cell.access.opcode cell.size.bytes cell.space cell.indexed < 0x80 := by
      rw [UInt8.lt_iff_toNat_lt, UInt8.lt_iff_toNat_lt, hopcode]
      change ¬_ < 64 ∧ ¬_ < 128
      omega
    rw [List.cons_append, read?, if_neg hrange.1, if_neg hrange.2, ofLong?_opcode, List.length_cons]

/-- Accesses with forms of which one starts with the other are the same. -/
theorem eq_of_leading {cell other : CellAccess} {bytes more : Bytes} (h : cell.bytes? = some bytes)
    (hother : other.bytes? = some more) (hleads : bytes <+: more) :
  cell = other
  := by
  obtain ⟨rest, rfl⟩ := hleads
  have hself := read?_bytes hother []
  rw [List.append_nil, read?_bytes h, Option.some_inj] at hself
  exact congrArg Prod.fst hself

/-- The forms of accesses can be told apart. Only an access that would be short at an offset that is
no multiple of four has no form; no form is the beginning of the form of another access; and an
access and the length of its form are read back from all bytes that start with it. -/
theorem forms_readable :
  (∀ cell : CellAccess, cell.bytes? = none
      ↔ cell.indexed = false ∧ cell.size = .long ∧ (cell.space = .vars ∨ cell.space = .frame)
        ∧ cell.offset.val < 32 ∧ ¬4 ∣ cell.offset.val)
    ∧ (∀ (cell other : CellAccess) (bytes more : Bytes), cell.bytes? = some bytes →
      other.bytes? = some more → cell ≠ other → ¬bytes <+: more ∧ ¬more <+: bytes)
    ∧ ∀ (cell : CellAccess) (bytes rest : Bytes), cell.bytes? = some bytes →
      read? (bytes ++ rest) = some (cell, bytes.length)
  := by
  refine ⟨?_, ?_, ?_⟩
  · intro cell
    rw [bytes?_eq_none_iff, IsShort]
    tauto
  · intro cell other bytes more h hother hne
    exact ⟨fun hleads => hne (eq_of_leading h hother hleads),
      fun hleads => hne (eq_of_leading hother h hleads).symm⟩
  · intro cell bytes rest h
    apply read?_bytes h

/-- A store to a long of the frame. -/
def frameStore (offset : Fin 32768) : CellAccess :=
  { access := .store, size := .long, space := .frame, offset, indexed := false }

/-- A store at offset 28 is one byte and a store at offset 128 three, and neither starts with the
other; with a return behind it, the longer one is read back. There is no store at offset 30. -/
theorem forms_readable_frame :
  (frameStore 28).bytes? = some [0x7d]
    ∧ (frameStore 128).bytes? = some [0xcd, 0x80, 0x80]
    ∧ (¬[0x7d] <+: ([0xcd, 0x80, 0x80] : Bytes) ∧ ¬([0xcd, 0x80, 0x80] : Bytes) <+: [0x7d])
    ∧ read? ([0xcd, 0x80, 0x80] ++ [0x32]) = some (frameStore 128, 3)
    ∧ (frameStore 30).bytes? = none
  := by
  have hnear : (frameStore 28).bytes? = some [0x7d] := by decide
  have hfar : (frameStore 128).bytes? = some [0xcd, 0x80, 0x80] := by decide
  obtain ⟨hnone, hapart, hread⟩ := forms_readable
  refine ⟨hnear, hfar, hapart _ _ _ _ hnear hfar (by decide), hread _ _ _ hfar, ?_⟩
  apply (hnone _).mpr
  decide

end CellAccess

end SpinHub
