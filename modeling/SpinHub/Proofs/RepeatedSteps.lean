import Mathlib
import SpinHub.Value

/-!
# Repeated single-bit steps

A rotation, a shift to the right or a reversal of a constant is the result of as many steps of one
bit as its count says, none for a negative count. The operators compute it in closed form, with
the count taken modulo 32 or cut off where further steps change nothing. A shift to the left takes
every count modulo 32, so it is repeated doubling for counts from 0 to 31 and differs from it for
most others.
-/

namespace SpinHub

namespace Word

/-! ### Steps -/

/-- The number of steps that a count asks for. -/
def steps (count : Word) : Nat := (max count.toInt 0).toNat

/-- A step to the right in which the low bit comes back at the top. -/
def turnRight (w : Word) : Word := w >>> 1 ||| w <<< 31

/-- A step to the left in which the top bit comes back at the low end. -/
def turnLeft (w : Word) : Word := w <<< 1 ||| w >>> 31

/-- A step to the right of the word as a natural number. -/
def halve (w : Word) : Word := BitVec.ofNat 32 (w.toNat / 2)

/-- A step to the right of the word as an integer. -/
def halveSigned (w : Word) : Word := BitVec.ofInt 32 (w.toInt / 2)

/-- A step to the left. -/
def double (w : Word) : Word := w + w

theorem steps_eq (count : Word) :
  count.steps = count.toInt.toNat
  := by
  rw [steps]
  omega

/-- What goes on by a step from each number of steps to the next is the repeated step. -/
theorem eq_iterate {w : Word} {f : Nat → Word} {step : Word → Word} (hzero : f 0 = w)
    (hsucc : ∀ n, f (n + 1) = step (f n)) (n : Nat) :
  f n = step^[n] w
  := by
  induction n with
  | zero => exact hzero
  | succ n ih => rw [hsucc, ih, Function.iterate_succ_apply']

/-! ### Rotations -/

/-- A turn to the right moves every bit down by one, and the lowest one to the top. -/
theorem getLsbD_turnRight (w : Word) {i : Nat} (hi : i < 32) :
  w.turnRight.getLsbD i = w.getLsbD ((i + 1) % 32)
  := by
  rw [turnRight, BitVec.getLsbD_or, BitVec.getLsbD_ushiftRight, BitVec.getLsbD_shiftLeft]
  by_cases hlast : i = 31
  · subst hlast
    simp [BitVec.getLsbD_of_ge]
  · have hfront : i < 31 := by omega
    simp [hfront, Nat.mod_eq_of_lt (show i + 1 < 32 by omega), Nat.add_comm 1 i]

theorem getLsbD_turnLeft (w : Word) {i : Nat} (hi : i < 32) :
  w.turnLeft.getLsbD i = w.getLsbD ((i + 31) % 32)
  := by
  rw [turnLeft, BitVec.getLsbD_or, BitVec.getLsbD_ushiftRight, BitVec.getLsbD_shiftLeft]
  cases i with
  | zero => simp
  | succ i =>
    have hindex : (i + 1 + 31) % 32 = i := by omega
    have hbeyond : w.getLsbD (31 + (i + 1)) = false := BitVec.getLsbD_of_ge w _ (by omega)
    simp [hi, hindex, hbeyond]

/-- A rotation by any number moves every bit by the remainder of 32. -/
theorem getLsbD_rotateRight (w : Word) (n : Nat) {i : Nat} (hi : i < 32) :
  (w.rotateRight n).getLsbD i = w.getLsbD ((i + n) % 32)
  := by
  rw [BitVec.getLsbD_rotateRight, decide_eq_true hi, Bool.true_and]
  by_cases hfront : i < 32 - n % 32
  · rw [decide_eq_true hfront, cond_true]
    congr 1
    omega
  · rw [decide_eq_false hfront, cond_false]
    congr 1
    omega

theorem getLsbD_rotateLeft (w : Word) (n : Nat) {i : Nat} (hi : i < 32) :
  (w.rotateLeft n).getLsbD i = w.getLsbD ((i + (32 - n % 32)) % 32)
  := by
  rw [BitVec.getLsbD_rotateLeft, decide_eq_true hi, Bool.true_and]
  by_cases hfront : i < n % 32
  · rw [decide_eq_true hfront, cond_true]
    congr 1
    omega
  · rw [decide_eq_false hfront, cond_false]
    congr 1
    omega

theorem rotateRight_zero (w : Word) :
  w.rotateRight 0 = w
  := by
  apply BitVec.eq_of_getLsbD_eq
  intro i hi
  rw [getLsbD_rotateRight w 0 hi, Nat.add_zero, Nat.mod_eq_of_lt hi]

theorem rotateLeft_zero (w : Word) :
  w.rotateLeft 0 = w
  := by
  apply BitVec.eq_of_getLsbD_eq
  intro i hi
  rw [getLsbD_rotateLeft w 0 hi, Nat.zero_mod, Nat.sub_zero, Nat.add_mod_right, Nat.mod_eq_of_lt hi]

/-- A rotation by one more is one more turn. -/
theorem rotateRight_succ (w : Word) (n : Nat) :
  w.rotateRight (n + 1) = turnRight (w.rotateRight n)
  := by
  apply BitVec.eq_of_getLsbD_eq
  intro i hi
  rw [getLsbD_turnRight _ hi, getLsbD_rotateRight w _ hi,
    getLsbD_rotateRight w n (Nat.mod_lt _ (by decide))]
  congr 1
  omega

theorem rotateLeft_succ (w : Word) (n : Nat) :
  w.rotateLeft (n + 1) = turnLeft (w.rotateLeft n)
  := by
  apply BitVec.eq_of_getLsbD_eq
  intro i hi
  rw [getLsbD_turnLeft _ hi, getLsbD_rotateLeft w _ hi,
    getLsbD_rotateLeft w n (Nat.mod_lt _ (by decide))]
  congr 1
  omega

/-! ### Shifts -/

/-- A shift by one more is one more halving. -/
theorem ushiftRight_succ (w : Word) (n : Nat) :
  w >>> (n + 1) = halve (w >>> n)
  := by
  apply BitVec.eq_of_toNat_eq
  rw [BitVec.shiftRight_add, halve, BitVec.toNat_ushiftRight, BitVec.toNat_ofNat,
    Nat.shiftRight_one, Nat.mod_eq_of_lt]
  have := (w >>> n).isLt
  omega

theorem sshiftRight_succ (w : Word) (n : Nat) :
  w.sshiftRight (n + 1) = halveSigned (w.sshiftRight n)
  := by
  have hvalue : ((w.sshiftRight n).sshiftRight 1).toInt = (w.sshiftRight n).toInt / 2 := by
    rw [BitVec.toInt_sshiftRight, Int.shiftRight_eq_div_pow]
    rfl
  rw [BitVec.sshiftRight_add, halveSigned, ← hvalue, BitVec.ofInt_toInt]

theorem shiftLeft_succ (w : Word) (n : Nat) :
  w <<< (n + 1) = double (w <<< n)
  := by
  apply BitVec.eq_of_toNat_eq
  rw [BitVec.shiftLeft_add, double, BitVec.toNat_shiftLeft, BitVec.toNat_add, Nat.shiftLeft_eq,
    Nat.pow_one, Nat.mul_two]

/-- A shift to the left is repeated doubling. -/
theorem iterate_double (w : Word) (n : Nat) :
  double^[n] w = w <<< n
  := (eq_iterate (BitVec.shiftLeft_zero w) (shiftLeft_succ w) n).symm

/-- Zero alone stays what it is when it is shifted. -/
theorem eq_zero_of_shiftLeft {w : Word} {n : Nat} (hn : n ≠ 0) (h : w <<< n = w) :
  w = 0
  := by
  have hagain (m : Nat) : w <<< (m * n) = w := by
    induction m with
    | zero => rw [Nat.zero_mul, BitVec.shiftLeft_zero]
    | succ m ih => rw [Nat.succ_mul, BitVec.shiftLeft_add, ih, h]
  rw [← hagain 32]
  apply BitVec.shiftLeft_eq_zero
  exact Nat.le_mul_of_pos_right 32 (Nat.pos_of_ne_zero hn)

/-! ### Reversals -/

/-- The bits of a word moved to the right, the sign bit going on for ever. -/
theorem getLsbD_sshiftRight (w : Word) (n : Nat) {i : Nat} (hi : i < 32) :
  (w.sshiftRight n).getLsbD i = w.getLsbD (min (n + i) 31)
  := by
  rw [BitVec.getLsbD_sshiftRight, BitVec.msb_eq_getLsbD_last, decide_eq_false (by omega),
    Bool.not_false, Bool.true_and]
  split_ifs with hinside
  · rw [Nat.min_eq_left (by omega)]
  · rw [Nat.min_eq_right (by omega)]

/-- The source of a reversal moves to the right. -/
theorem source_reverseSteps (r w : Word) (n : Nat) :
  (reverseStep^[n] (r, w)).2 = w.sshiftRight n
  := by
  induction n with
  | zero => exact (BitVec.sshiftRight_zero ..).symm
  | succ n ih => rw [Function.iterate_succ_apply', reverseStep, ih, ← BitVec.sshiftRight_add]

/-- Below the number of steps a reversal mirrors the bits of the word, the sign bit going on for
ever; above it there is nothing yet. -/
theorem getLsbD_reverseSteps (w : Word) (n : Nat) {i : Nat} (hi : i < 32) :
  (reverseStep^[n] (0, w)).1.getLsbD i = (decide (i < n) && w.getLsbD (min (n - 1 - i) 31))
  := by
  induction n generalizing i with
  | zero => simp
  | succ n ih =>
    rw [Function.iterate_succ_apply', reverseStep, source_reverseSteps, BitVec.getLsbD_or,
      BitVec.getLsbD_and, BitVec.getLsbD_shiftLeft]
    cases i with
    | zero =>
      rw [getLsbD_sshiftRight w n hi]
      simp
    | succ i =>
      have hindex : n + 1 - 1 - (i + 1) = n - 1 - i := by omega
      rw [Nat.add_sub_cancel, ih (Nat.lt_of_succ_lt hi), hindex]
      simp [hi]

/-- Past 64 steps a reversal does not change. -/
theorem reverse_eq (w : Word) (n : Nat) :
  w.reverse n = (reverseStep^[n] (0, w)).1
  := by
  have hrepeat (m : Nat) : Nat.repeat reverseStep m (0, w) = reverseStep^[m] (0, w) := by
    induction m with
    | zero => rfl
    | succ m ih => rw [Nat.repeat, ih, Function.iterate_succ_apply']
  rw [reverse, hrepeat]
  by_cases hn : n ≤ 64
  · rw [Nat.min_eq_left hn]
  · apply BitVec.eq_of_getLsbD_eq
    intro i hi
    have hfew : min (64 - 1 - i) 31 = 31 := by omega
    have hmany : min (n - 1 - i) 31 = 31 := by omega
    rw [Nat.min_eq_right (by omega), getLsbD_reverseSteps w 64 hi, getLsbD_reverseSteps w n hi,
      hfew, hmany, decide_eq_true (show i < 64 by omega), decide_eq_true (show i < n by omega)]

/-- Up to 32 steps a reversal mirrors the low bits. -/
theorem getLsbD_reverse (w : Word) {n i : Nat} (hn : n ≤ 32) (hi : i < 32) :
  (w.reverse n).getLsbD i = if i < n then w.getLsbD (n - 1 - i) else false
  := by
  rw [reverse_eq, getLsbD_reverseSteps w n hi, Nat.min_eq_left (by omega)]
  by_cases hin : i < n <;> simp [hin]

/-- From 64 steps on a reversal holds nothing but the sign. -/
theorem reverse_of_le (w : Word) {n : Nat} (hn : 64 ≤ n) :
  w.reverse n = if w.toInt < 0 then -1 else 0
  := by
  have hsign : w.getLsbD 31 = decide (w.toInt < 0) := by
    rw [← BitVec.msb_eq_toInt, BitVec.msb_eq_getLsbD_last]
  have hones : (-1 : Word) = BitVec.allOnes 32 := rfl
  apply BitVec.eq_of_getLsbD_eq
  intro i hi
  have hmany : min (n - 1 - i) 31 = 31 := by omega
  rw [reverse_eq, getLsbD_reverseSteps w n hi, hmany, hsign, decide_eq_true (show i < n by omega),
    Bool.true_and, hones]
  split_ifs with hneg
  · rw [decide_eq_true hneg, BitVec.getLsbD_allOnes, decide_eq_true hi]
  · rw [decide_eq_false hneg]
    exact (BitVec.getLsbD_zero ..).symm

end Word

/-! ### Operators -/

namespace BinaryOp

/-- An operator on words is a repeated step: its second operand says how often. -/
def Iterates (op : BinaryOp) (step : Word → Word) : Prop :=
  ∀ a b : Word, Value.binary op (.int a) (.int b) = .ok (.int (step^[b.steps] a))

/-- An operator repeats a step if one more count is one more step. -/
theorem Iterates.of_succ {op : BinaryOp} {step : Word → Word} (f : Word → Nat → Word)
    (hop : ∀ a b : Word, Value.binary op (.int a) (.int b) = .ok (.int (f a b.toInt.toNat)))
    (hzero : ∀ w, f w 0 = w) (hsucc : ∀ w n, f w (n + 1) = step (f w n)) :
  op.Iterates step
  := by
  intro a b
  rw [hop, ← Word.steps_eq, Word.eq_iterate (hzero a) (hsucc a)]

/-- Rotations, shifts to the right and reversals of constants are repeated steps of one bit, for
every count. A reversal of up to 32 bits mirrors them, and from 64 steps on only the sign is
left. -/
theorem operators_iterate :
  Iterates .rotateRight Word.turnRight ∧ Iterates .rotateLeft Word.turnLeft
    ∧ Iterates .shiftRight Word.halve ∧ Iterates .shiftRightArithmetic Word.halveSigned
    ∧ ∀ a b : Word, ∃ r : Word, Value.binary .reverse (.int a) (.int b) = .ok (.int r)
      ∧ r = (Word.reverseStep^[b.steps] (0, a)).1
      ∧ (0 ≤ b.toInt → b.toInt ≤ 32 → ∀ i < 32,
        r.getLsbD i = if i < b.steps then a.getLsbD (b.steps - 1 - i) else false)
      ∧ (64 ≤ b.toInt → r = if a.toInt < 0 then -1 else 0)
  := by
  refine ⟨?_, ?_, ?_, ?_, ?_⟩
  · exact .of_succ BitVec.rotateRight (fun _ _ => rfl) Word.rotateRight_zero Word.rotateRight_succ
  · exact .of_succ BitVec.rotateLeft (fun _ _ => rfl) Word.rotateLeft_zero Word.rotateLeft_succ
  · exact .of_succ (fun w n => w >>> n) (fun _ _ => rfl) (fun _ => rfl) Word.ushiftRight_succ
  · exact .of_succ BitVec.sshiftRight (fun _ _ => rfl) (fun _ => BitVec.sshiftRight_zero)
      Word.sshiftRight_succ
  · intro a b
    use a.reverse b.steps
    refine ⟨?_, a.reverse_eq _, ?_, ?_⟩
    · rw [Word.steps_eq]
      rfl
    · intro _ hfew i hi
      apply a.getLsbD_reverse _ hi
      rw [Word.steps_eq]
      omega
    · intro hmany
      apply a.reverse_of_le
      rw [Word.steps_eq]
      omega

/-- A rotation by 33 is one step in the end, six bits of 19 are mirrored to 50, and seventy steps
leave the sign of -5. -/
theorem operators_iterate_beyond :
  Value.binary .rotateRight (.int 3) (.int 33) = .ok (.int (Word.turnRight^[Word.steps 33] 3))
    ∧ Word.turnRight^[Word.steps 33] 3 = 0x80000001
    ∧ Value.binary .reverse (.int 19) (.int 6) = .ok (.int 50)
    ∧ (∀ i < 32, (50 : Word).getLsbD i
      = if i < Word.steps 6 then (19 : Word).getLsbD (Word.steps 6 - 1 - i) else false)
    ∧ Value.binary .reverse (.int (-5)) (.int 70) = .ok (.int (-1))
  := by
  obtain ⟨hright, _, _, _, hreverse⟩ := operators_iterate
  obtain ⟨r, hmirror, _, hbits, _⟩ := hreverse 19 6
  obtain ⟨s, hlong, _, _, hsign⟩ := hreverse (-5) 70
  have hmirrored : Value.binary .reverse (.int 19) (.int 6) = .ok (.int 50) := rfl
  obtain rfl : r = 50 := by
    rw [hmirrored] at hmirror
    cases hmirror
    rfl
  rw [hsign (by decide)] at hlong
  exact ⟨hright 3 33, by decide, hmirrored, hbits (by decide) (by decide), hlong⟩

/-! ### Shifts to the left -/

theorem binary_shiftLeft (a b : Word) :
  Value.binary .shiftLeft (.int a) (.int b) = .ok (.int (a <<< (b.toNat % 32)))
  := rfl

/-- Where the count taken modulo 32 makes no difference. -/
theorem shiftLeft_eq_steps_iff (a b : Word) :
  a <<< (b.toNat % 32) = a <<< b.steps
    ↔ 0 ≤ b.toInt ∧ b.toInt < 32 ∨ 32 ≤ b.toInt ∧ a <<< (b.toNat % 32) = 0
      ∨ b.toInt < 0 ∧ (a = 0 ∨ 32 ∣ b.toInt)
  := by
  have hvalue := BitVec.toInt_eq_toNat_cond b
  have hbound := b.isLt
  rw [Word.steps_eq]
  by_cases hneg : b.toInt < 0
  · rw [Int.toNat_of_nonpos hneg.le, BitVec.shiftLeft_zero]
    constructor
    · intro h
      refine .inr (.inr ⟨hneg, ?_⟩)
      by_cases hcount : b.toNat % 32 = 0
      · right
        omega
      · left
        apply Word.eq_zero_of_shiftLeft hcount h
    · rintro (h | h | ⟨_, rfl | hdvd⟩)
      · omega
      · omega
      · apply BitVec.zero_shiftLeft
      · rw [show b.toNat % 32 = 0 by omega, BitVec.shiftLeft_zero]
  by_cases hsmall : b.toInt < 32
  · rw [show b.toNat % 32 = b.toInt.toNat by omega]
    simp only [true_iff]
    exact .inl ⟨by omega, hsmall⟩
  · rw [BitVec.shiftLeft_eq_zero (show 32 ≤ b.toInt.toNat by omega)]
    constructor
    · intro h
      exact .inr (.inl ⟨by omega, h⟩)
    · rintro (h | ⟨_, h⟩ | h)
      · omega
      · exact h
      · omega

/-- Where two shifts make the shift by the sum of the counts. -/
theorem shiftLeft_shiftLeft_iff (a : Word) (m n : Nat) :
  a <<< (m % 32) <<< (n % 32) = a <<< ((m + n) % 32)
    ↔ m % 32 + n % 32 < 32 ∨ a <<< ((m + n) % 32) = 0
  := by
  rw [← BitVec.shiftLeft_add]
  by_cases hfew : m % 32 + n % 32 < 32
  · rw [show (m + n) % 32 = m % 32 + n % 32 by omega]
    simp [hfew]
  · rw [BitVec.shiftLeft_eq_zero (Nat.le_of_not_lt hfew)]
    simp [hfew, eq_comm]

/-- A shift of a constant to the left doubles it as often as the count modulo 32 says. This is the
number of steps that the count asks for exactly if the count is between 0 and 31, or the result is
zero where it has to be, or the count is a negative multiple of 32 or zero is shifted. Two shifts
make one exactly if the counts modulo 32 do not pass 31 together, or the one shift gives zero. -/
theorem shiftLeft_iterates_modulo (a b : Word) :
  Value.binary .shiftLeft (.int a) (.int b) = .ok (.int (Word.double^[b.toNat % 32] a))
    ∧ (Value.binary .shiftLeft (.int a) (.int b) = .ok (.int (Word.double^[b.steps] a))
      ↔ 0 ≤ b.toInt ∧ b.toInt < 32
        ∨ 32 ≤ b.toInt ∧ Word.double^[b.toNat % 32] a = 0
        ∨ b.toInt < 0 ∧ (a = 0 ∨ 32 ∣ b.toInt))
    ∧ ∀ c : Word, (Value.binary .shiftLeft (.int a) (.int b)
          >>= fun shifted => Value.binary .shiftLeft shifted (.int c))
        = Value.binary .shiftLeft (.int a) (.int (b + c))
      ↔ b.toNat % 32 + c.toNat % 32 < 32
        ∨ Word.double^[(b.toNat + c.toNat) % 32] a = 0
  := by
  simp only [Word.iterate_double, binary_shiftLeft, Except.ok.injEq, Value.int.injEq, true_and]
  refine ⟨shiftLeft_eq_steps_iff a b, ?_⟩
  intro c
  have hcount : (b + c).toNat % 32 = (b.toNat + c.toNat) % 32 := by
    rw [BitVec.toNat_add]
    omega
  change Except.ok (Value.int (a <<< (b.toNat % 32) <<< (c.toNat % 32))) = _ ↔ _
  rw [hcount, Except.ok.injEq, Value.int.injEq, shiftLeft_shiftLeft_iff]

/-- Doubling 1 for 32 times gives zero, and a negative count asks for no step, but the shifts give 1
and the top bit. -/
theorem shiftLeft_not_iterates :
  Value.binary .shiftLeft (.int 1) (.int 32) = .ok (.int 1)
    ∧ Word.double^[Word.steps 32] 1 = 0
    ∧ Value.binary .shiftLeft (.int 1) (.int (-1)) = .ok (.int 0x80000000)
    ∧ Word.double^[Word.steps (-1)] 1 = 1
    ∧ ¬Iterates .shiftLeft Word.double
  := by
  have hzero : Word.double^[Word.steps 32] 1 = 0 := by decide
  refine ⟨rfl, hzero, rfl, by decide, ?_⟩
  intro h
  have hshift := h 1 32
  rw [hzero] at hshift
  cases hshift

end BinaryOp

end SpinHub
