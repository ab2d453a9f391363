import Mathlib
import SpinHub.Bytecode.Push
import SpinHub.Proofs.Bytes

/-!
# Push forms are read back

`decode?` reads from the front of any bytes the word that `encode` wrote there, and uses
exactly the bytes that were written. The forms with an operand of one or two bytes may be
followed by a complement, so what follows the form must not start with one.
-/

namespace SpinHub.Push

/-! ### Operands of several bytes -/

/-- The low `k` bytes of a word, high byte first. -/
def lowBytes (w : Word) : Nat → Bytes
  | 0 => []
  | k + 1 => w.byte k :: lowBytes w k

@[simp]
theorem length_lowBytes (w : Word) (k : Nat) :
  (lowBytes w k).length = k
  := by
  induction k with
  | zero => rfl
  | succ k ih => rw [lowBytes, List.length_cons, ih]

/-- Shifting a byte in below a word multiplies the word by 256 and adds the byte. -/
theorem toNat_shift_or (acc : Word) (b : UInt8) :
  ((acc <<< 8) ||| BitVec.ofNat 32 b.toNat).toNat = (acc.toNat * 256 + b.toNat) % 2 ^ 32
  := by
  have hb : b.toNat < 256 := b.toNat_lt
  have hlow : b.toNat % 2 ^ 32 = b.toNat := by omega
  have hhigh : acc.toNat <<< 8 % 2 ^ 32 = (acc.toNat % 16777216) <<< 8 := by
    rw [Nat.shiftLeft_eq, Nat.shiftLeft_eq]
    omega
  rw [BitVec.toNat_or, BitVec.toNat_shiftLeft, BitVec.toNat_ofNat, hlow, hhigh,
    ← Nat.shiftLeft_add_eq_or_of_lt hb, Nat.shiftLeft_eq]
  omega

theorem toNat_foldl_lowBytes (w acc : Word) (k : Nat) :
  ((lowBytes w k).foldl (fun (acc : Word) b => (acc <<< 8) ||| BitVec.ofNat 32 b.toNat) acc).toNat
    = (acc.toNat * 256 ^ k + w.toNat % 256 ^ k) % 2 ^ 32
  := by
  induction k generalizing acc with
  | zero =>
    have := acc.isLt
    simp only [lowBytes, List.foldl_nil]
    omega
  | succ k ih =>
    have split := Nat.mod_pow_succ (x := w.toNat) (b := 256) (k := k)
    rw [lowBytes, List.foldl_cons, ih, toNat_shift_or, Word.toNat_byte, split,
      Nat.add_mod _ _ (2 ^ 32), Nat.mod_mul_mod, ← Nat.add_mod]
    congr 1
    ring

/-- A word below `256 ^ k` is read back from its low `k` bytes. -/
theorem bigEndianValue_lowBytes {w : Word} {k : Nat} (h : w.toNat < 256 ^ k) :
  bigEndianValue (lowBytes w k) = w
  := by
  apply BitVec.eq_of_toNat_eq
  have := w.isLt
  rw [bigEndianValue, toNat_foldl_lowBytes, Nat.mod_eq_of_lt h]
  simp only [BitVec.ofNat_eq_ofNat, BitVec.toNat_ofNat, Nat.zero_mod, Nat.zero_mul, Nat.zero_add]
  omega

/-! ### The tests of the encoder -/

/-- A word has no bits from `k` on exactly when it is below `2 ^ k`. -/
theorem and_high_eq_zero_iff (v : Word) (k : Nat) :
  v &&& (BitVec.allOnes 32 <<< k) = 0#32 ↔ v.toNat < 2 ^ k
  := by
  have bit (i : Nat) : (v &&& (BitVec.allOnes 32 <<< k)).getLsbD i
      = (v.getLsbD i && (decide (i < 32) && !decide (i < k) && decide (i - k < 32))) := by
    rw [BitVec.getLsbD_and, BitVec.getLsbD_shiftLeft, BitVec.getLsbD_allOnes]
  constructor
  · intro h
    apply Nat.lt_pow_two_of_testBit
    intro i hi
    rw [BitVec.testBit_toNat]
    by_cases hw : i < 32
    · have clear := bit i
      have above : ¬ i < k := by omega
      have inside : i - k < 32 := by omega
      rw [h, BitVec.getLsbD_zero] at clear
      simpa only [hw, above, inside, decide_true, decide_false, Bool.not_false, Bool.and_true]
        using clear.symm
    · apply BitVec.getLsbD_of_ge
      omega
  · intro h
    apply BitVec.eq_of_getLsbD_eq
    intro i _
    rw [bit, BitVec.getLsbD_zero]
    by_cases hk : i < k
    · simp only [hk, decide_true, Bool.not_true, Bool.and_false, Bool.false_and]
    · have clear : v.getLsbD i = false := by
        rw [← BitVec.testBit_toNat]
        apply Nat.testBit_eq_false_of_lt
        apply lt_of_lt_of_le h
        apply Nat.pow_le_pow_right <;> omega
      rw [clear, Bool.false_and]

/-- A word is all ones above some low bits exactly when its complement has none there. -/
theorem or_low_eq_ones_iff {v low high : Word} (h : ~~~low = high) :
  v ||| low = -1 ↔ ~~~v &&& high = 0#32
  := by
  rw [← h, ← BitVec.not_or]
  constructor
  · intro h
    rw [h]
    decide
  · intro h
    rw [← BitVec.not_not (b := v ||| low), h]
    decide

/-- The operand of the power form pushes the word it was made for. -/
theorem powerValue_of_powerOperandAt {v : Word} {i : Nat} {b : UInt8} (hi : i < 31)
    (h : powerOperandAt? v i = some b) :
  powerValue b = v
  := by
  have table : ∀ i < 31,
      powerValue (UInt8.ofNat i) = 2 <<< i
        ∧ powerValue (UInt8.ofNat (i + 0x20)) = 2 <<< i - 1
        ∧ powerValue (UInt8.ofNat (i + 0x40)) = ~~~((2 <<< i : Nat) : Word)
        ∧ powerValue (UInt8.ofNat (i + 0x60)) = -((2 <<< i : Nat) : Word) := by decide
  obtain ⟨h0, h1, h2, h3⟩ := table i hi
  simp only [powerOperandAt?] at h
  split_ifs at h with e0 e1 e2 e3
  all_goals
    simp only [Option.some.injEq] at h
    subst h
  · rw [h0, e0]
  · rw [h1, e1]
  · rw [h2, e2]
  · rw [h3, e3]

theorem powerValue_of_powerOperand {v : Word} {b : UInt8} (h : powerOperand? v = some b) :
  powerValue b = v
  := by
  obtain ⟨i, hi, hb⟩ := List.exists_of_findSome?_eq_some h
  apply powerValue_of_powerOperandAt (List.mem_range.mp hi) hb

/-! ### Reading one form -/

/-- The opcodes of the plain forms push no constant and no power. -/
theorem ne_of_operandCount {opcode : UInt8} {n : Nat} (h : operandCount? opcode = some n) :
  opcode ≠ minusOne ∧ opcode ≠ zero ∧ opcode ≠ one ∧ opcode ≠ power
  := by
  refine ⟨?_, ?_, ?_, ?_⟩
  all_goals
    rintro rfl
    cases h

/-- A plain form is read back if no complement follows an operand of one or two bytes. -/
theorem decode_plain {opcode : UInt8} {operand rest : Bytes}
    (hcount : operandCount? opcode = some operand.length)
    (hrest : operand.length ≤ 2 → rest.head? ≠ some complement) :
  decode? (opcode :: (operand ++ rest)) = some (bigEndianValue operand, operand.length + 1)
  := by
  obtain ⟨h1, h2, h3, h4⟩ := ne_of_operandCount hcount
  have hlong : ¬ (operand ++ rest).length < operand.length := by
    rw [List.length_append]
    omega
  have hnext : ¬ (operand.length ≤ 2 ∧ (operand ++ rest)[operand.length]? = some complement) := by
    rintro ⟨hle, hget⟩
    rw [List.getElem?_append_right (le_refl _), Nat.sub_self, ← List.head?_eq_getElem?] at hget
    apply hrest hle hget
  simp only [decode?, h1, h2, h3, h4, if_false, hcount, Option.bind_eq_bind, Option.bind_some]
  rw [if_neg hlong, if_neg hnext, List.take_left]

/-- A plain form with an operand of one or two bytes and a complement is read back. -/
theorem decode_complement {opcode : UInt8} {operand : Bytes} (rest : Bytes)
    (hcount : operandCount? opcode = some operand.length) (hle : operand.length ≤ 2) :
  decode? (opcode :: (operand ++ complement :: rest))
    = some (~~~bigEndianValue operand, operand.length + 2)
  := by
  obtain ⟨h1, h2, h3, h4⟩ := ne_of_operandCount hcount
  have hlong : ¬ (operand ++ complement :: rest).length < operand.length := by
    rw [List.length_append]
    omega
  have hnext :
      operand.length ≤ 2 ∧ (operand ++ complement :: rest)[operand.length]? = some complement := by
    use hle
    rw [List.getElem?_append_right (le_refl _), Nat.sub_self, List.getElem?_cons_zero]
  simp only [decode?, h1, h2, h3, h4, if_false, hcount, Option.bind_eq_bind, Option.bind_some]
  rw [if_neg hlong, if_pos hnext, List.take_left]

/-! ### What the encoder writes -/

/-- The byte strings that push a word. -/
inductive Form (v : Word) : Bytes → Prop where
  | minusOne : v = -1 → Form v [minusOne]
  | zero : v = 0 → Form v [zero]
  | one : v = 1 → Form v [one]
  | power {b : UInt8} : powerValue b = v → Form v [power, b]
  | plain {opcode : UInt8} (k : Nat) :
      operandCount? opcode = some k → v.toNat < 256 ^ k → Form v (opcode :: lowBytes v k)
  | complemented {opcode : UInt8} (k : Nat) :
      operandCount? opcode = some k → k ≤ 2 → (~~~v).toNat < 256 ^ k →
        Form v (opcode :: (lowBytes (~~~v) k ++ [complement]))

theorem encode_form (v : Word) (minLength : Nat) :
  Form v (encode v minLength)
  := by
  have below (k : Nat) (w mask : Word) (hmask : mask = BitVec.allOnes 32 <<< (8 * k))
      (h : w &&& mask = 0#32) : w.toNat < 256 ^ k := by
    rw [hmask, and_high_eq_zero_iff, Nat.pow_mul] at h
    exact h
  rw [encode]
  split
  · rename_i h
    apply Form.minusOne h.1
  split
  · rename_i h
    apply Form.zero h.1
  split
  · rename_i h
    apply Form.one h.1
  split
  · rename_i b hb
    split_ifs at hb
    apply Form.power (powerValue_of_powerOperand hb)
  -- The plain forms in the order of their lengths, each with or without a complement.
  split_ifs with h1 h2 h3 h4 h5
  · apply Form.plain 1 rfl (below 1 v _ (by decide) h1.1)
  · apply Form.complemented 1 rfl (by decide)
    apply below 1 _ 0xffffff00 (by decide) ((or_low_eq_ones_iff (by decide)).mp h2.1)
  · apply Form.plain 2 rfl (below 2 v _ (by decide) h3.1)
  · apply Form.complemented 2 rfl (by decide)
    apply below 2 _ 0xffff0000 (by decide) ((or_low_eq_ones_iff (by decide)).mp h4.1)
  · apply Form.plain 3 rfl (below 3 v _ (by decide) h5.1)
  · apply Form.plain 4 rfl v.isLt

/-- A form is read back, whatever follows it but a complement. -/
theorem Form.decode {v : Word} {bytes rest : Bytes} (h : Form v bytes)
    (hrest : rest.head? ≠ some complement) :
  decode? (bytes ++ rest) = some (v, bytes.length)
  := by
  cases h with
  | minusOne h =>
    subst h
    rfl
  | zero h =>
    subst h
    rfl
  | one h =>
    subst h
    rfl
  | power h =>
    subst h
    rfl
  | plain k hcount hv =>
    rw [List.cons_append, decode_plain (by rw [length_lowBytes, hcount]) (fun _ => hrest),
      bigEndianValue_lowBytes hv, List.length_cons]
  | complemented k hcount hk hv =>
    rw [List.cons_append, List.append_assoc, List.singleton_append,
      decode_complement rest (by rw [length_lowBytes, hcount]) (by rw [length_lowBytes]; exact hk),
      bigEndianValue_lowBytes hv, BitVec.not_not, List.length_cons, List.length_append,
      List.length_singleton]

/-- The shortest push of at least a given length is read back, whatever follows it but a
complement. -/
theorem decode_encode (v : Word) (minLength : Nat) {rest : Bytes}
    (hrest : rest.head? ≠ some complement) :
  decode? (encode v minLength ++ rest) = some (v, (encode v minLength).length)
  := (encode_form v minLength).decode hrest

end SpinHub.Push
