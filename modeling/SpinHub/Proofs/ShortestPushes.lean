import Mathlib
import SpinHub.Proofs.PushForms

/-!
# Shortest pushes

A byte string is read completely as a push of a word exactly when it is one of the word's forms.
So the forms can be compared by length: what `encode` writes is as long as it is asked to be, and
no form of the word that is also long enough is shorter. The one exception is the push of -1 in at
least two bytes, which has a power form that `encode` does not use.
-/

namespace SpinHub.Push

/-! ### What the decoder reads completely -/

/-- The low bytes of a word, with the lowest one apart. -/
theorem lowBytes_succ (w : Word) (k : Nat) :
  lowBytes w (k + 1) = lowBytes (w >>> 8) k ++ [w.byte 0]
  := by
  have shifted (i : Nat) : w.byte (i + 1) = Word.byte (w >>> 8) i := by
    rw [Word.byte, Word.byte, BitVec.toNat_ushiftRight, ← Nat.shiftRight_add, Nat.mul_add,
      Nat.add_comm]
  induction k with
  | zero => rfl
  | succ k ih => rw [lowBytes, ih, shifted, lowBytes, List.cons_append]

/-- An operand of at most four bytes is below the power of 256 for its length, and consists of the
low bytes of the word it is read as. -/
theorem bigEndianValue_spec {operand : Bytes} (h : operand.length ≤ 4) :
  (bigEndianValue operand).toNat < 256 ^ operand.length
    ∧ lowBytes (bigEndianValue operand) operand.length = operand
  := by
  induction operand using List.reverseRecOn with
  | nil => exact ⟨by decide, rfl⟩
  | append_singleton front b ih =>
    rw [List.length_append, List.length_singleton] at h ⊢
    obtain ⟨hbelow, hbytes⟩ := ih (by omega)
    have hb : b.toNat < 256 := b.toNat_lt
    have hroom : 256 ^ front.length ≤ 256 ^ 3 := Nat.pow_le_pow_right (by decide) (by omega)
    have hvalue : (bigEndianValue (front ++ [b])).toNat
        = (bigEndianValue front).toNat * 256 + b.toNat := by
      rw [bigEndianValue, List.foldl_append, List.foldl_cons, List.foldl_nil, toNat_shift_or]
      apply Nat.mod_eq_of_lt
      change (bigEndianValue front).toNat * 256 + b.toNat < 2 ^ 32
      omega
    have hhigh : bigEndianValue (front ++ [b]) >>> 8 = bigEndianValue front := by
      apply BitVec.eq_of_toNat_eq
      rw [BitVec.toNat_ushiftRight, Nat.shiftRight_eq_div_pow, hvalue]
      omega
    have hlow : (bigEndianValue (front ++ [b])).byte 0 = b := by
      apply UInt8.toNat_inj.mp
      rw [Word.toNat_byte, hvalue]
      omega
    constructor
    · rw [hvalue, Nat.pow_succ]
      omega
    · rw [lowBytes_succ, hhigh, hlow, hbytes]

theorem operandCount_cases {opcode : UInt8} {n : Nat} (h : operandCount? opcode = some n) :
  n = 1 ∨ n = 2 ∨ n = 3 ∨ n = 4
  := by
  rw [operandCount?] at h
  split_ifs at h <;> cases h <;> decide

theorem operandCount_le {opcode : UInt8} {n : Nat} (h : operandCount? opcode = some n) :
  n ≤ 4
  := by
  have := operandCount_cases h
  omega

/-- Any operand of the right length makes a plain form. -/
theorem Form.of_operand {opcode : UInt8} {operand : Bytes}
    (hcount : operandCount? opcode = some operand.length) :
  Form (bigEndianValue operand) (opcode :: operand)
  := by
  obtain ⟨hbelow, hbytes⟩ := bigEndianValue_spec (operandCount_le hcount)
  have hform := Form.plain operand.length hcount hbelow
  rwa [hbytes] at hform

/-- Any operand of one or two bytes makes a form with a complement. -/
theorem Form.of_complemented {opcode : UInt8} {operand : Bytes}
    (hcount : operandCount? opcode = some operand.length) (hle : operand.length ≤ 2) :
  Form (~~~bigEndianValue operand) (opcode :: (operand ++ [complement]))
  := by
  obtain ⟨hbelow, hbytes⟩ := bigEndianValue_spec (operandCount_le hcount)
  have hform : Form (~~~bigEndianValue operand) _ :=
    Form.complemented operand.length hcount hle (by rwa [BitVec.not_not])
  rwa [BitVec.not_not, hbytes] at hform

/-- What is read completely as a push of a word is one of its forms. -/
theorem form_of_decode {v : Word} {s : Bytes} (h : decode? s = some (v, s.length)) :
  Form v s
  := by
  cases s with
  | nil => cases h
  | cons opcode rest =>
    have alone {w : Word} (h : some (w, 1) = some (v, rest.length + 1)) : v = w ∧ rest = [] := by
      simp only [Option.some.injEq, Prod.mk.injEq] at h
      exact ⟨h.1.symm, List.eq_nil_of_length_eq_zero (by omega)⟩
    rw [decode?, List.length_cons] at h
    split_ifs at h with h1 h2 h3 h4
    · obtain ⟨hv, rfl⟩ := alone h
      rw [h1]
      apply Form.minusOne hv
    · obtain ⟨hv, rfl⟩ := alone h
      rw [h2]
      apply Form.zero hv
    · obtain ⟨hv, rfl⟩ := alone h
      rw [h3]
      apply Form.one hv
    · obtain ⟨b, hb, hread⟩ := Option.map_eq_some_iff.mp h
      obtain ⟨tail, rfl⟩ := List.head?_eq_some_iff.mp hb
      simp only [Prod.mk.injEq, List.length_cons] at hread
      obtain rfl : tail = [] := List.eq_nil_of_length_eq_zero (by omega)
      rw [h4]
      apply Form.power hread.1
    · obtain ⟨n, hcount, h⟩ := Option.bind_eq_some_iff.mp h
      split_ifs at h with hshort hnext
      · -- The complement ends the string, so all in front of it is the operand.
        simp only [Option.some.injEq, Prod.mk.injEq] at h
        obtain ⟨hn, hlast⟩ := List.getElem?_eq_some_iff.mp hnext.2
        have hsplit : rest = rest.take n ++ [complement] := by
          rw [← hlast, List.take_append_getElem hn, List.take_of_length_le (by omega)]
        have htake : (rest.take n).length = n := List.length_take_of_le (by omega)
        rw [hsplit, ← h.1]
        apply Form.of_complemented
        · rw [htake, hcount]
        · rw [htake]
          exact hnext.1
      · simp only [Option.some.injEq, Prod.mk.injEq] at h
        have hall : rest.take n = rest := List.take_of_length_le (by omega)
        rw [← h.1, hall]
        apply Form.of_operand
        rw [hcount]
        congr 1
        omega

/-- The forms of a word are the byte strings that are read completely as a push of it. -/
theorem form_iff_decode {v : Word} {s : Bytes} :
  Form v s ↔ decode? s = some (v, s.length)
  := by
  constructor
  · intro h
    have hread : decode? (s ++ []) = some (v, s.length) := h.decode (by simp)
    rwa [List.append_nil] at hread
  · apply form_of_decode

/-! ### What the encoder chooses from -/

/-- The forms that the encoder has, shortest first, each with the test whether it pushes `v`. -/
def candidates (v : Word) : List (Bool × Bytes) :=
  [(v = -1, [minusOne]), (v = 0, [zero]), (v = 1, [one]),
    ((powerOperand? v).isSome, [power, (powerOperand? v).getD 0]),
    (v &&& 0xffffff00 = 0, [byte1, v.byte 0]),
    (v ||| 0xff = -1, [byte1, Word.byte (~~~v) 0, complement]),
    (v &&& 0xffff0000 = 0, [byte2, v.byte 1, v.byte 0]),
    (v ||| 0xffff = -1, [byte2, Word.byte (~~~v) 1, Word.byte (~~~v) 0, complement]),
    (v &&& 0xff000000 = 0, [byte3, v.byte 2, v.byte 1, v.byte 0]),
    (true, byte4 :: v.bigEndian)]

/-- The encoder takes the first form that passes its test and is long enough. -/
theorem encode_eq (v : Word) (minLength : Nat) :
  encode v minLength
    = (((candidates v).find? fun c => c.1 && minLength ≤ c.2.length).map Prod.snd).getD
      (byte4 :: v.bigEndian)
  := by
  have choose (c : Bool × Bytes) (rest : List (Bool × Bytes)) :
      (((c :: rest).find? fun c => c.1 && minLength ≤ c.2.length).map Prod.snd).getD
          (byte4 :: v.bigEndian)
        = if c.1 = true ∧ minLength ≤ c.2.length then c.2
          else ((rest.find? fun c => c.1 && minLength ≤ c.2.length).map Prod.snd).getD
            (byte4 :: v.bigEndian) := by
    rw [List.find?_cons]
    split_ifs with h
    · simp [h]
    · have hfails : (c.1 && decide (minLength ≤ c.2.length)) = false := by
        simpa using h
      rw [hfails]
  simp only [candidates, choose, decide_eq_true_eq, List.length_cons, List.length_nil]
  rw [encode]
  cases powerOperand? v with
  | none => simp
  | some b =>
    by_cases hshort : minLength ≤ 2
    · simp [hshort]
    · simp [hshort]

/-- Of candidates that are sorted by length, the first that passes is no longer than any other
that does. -/
theorem length_find?_le {l : List (Bool × Bytes)} {p : Bool × Bytes → Bool} {c c' : Bool × Bytes}
    (hsorted : l.Pairwise fun c c' => c.2.length ≤ c'.2.length) (hfind : l.find? p = some c)
    (hmem : c' ∈ l) (hpass : p c' = true) :
  c.2.length ≤ c'.2.length
  := by
  obtain ⟨_, front, back, rfl, hfront⟩ := List.find?_eq_some_iff_append.mp hfind
  rcases List.mem_append.mp hmem with hbefore | hbehind
  · have hfails := hfront c' hbefore
    rw [hpass] at hfails
    cases hfails
  · rcases List.mem_cons.mp hbehind with rfl | hlater
    · exact le_rfl
    · apply List.rel_of_pairwise_cons (List.pairwise_append.mp hsorted).2.1 hlater

theorem map_length_candidates (v : Word) :
  (candidates v).map (·.2.length) = [1, 1, 1, 2, 2, 3, 3, 4, 4, 5]
  := rfl

theorem candidates_sorted (v : Word) :
  (candidates v).Pairwise fun c c' => c.2.length ≤ c'.2.length
  := by
  have hsorted : ((candidates v).map (·.2.length)).Pairwise (· ≤ ·) := by
    rw [map_length_candidates]
    decide
  exact List.pairwise_map.mp hsorted

theorem length_candidate {v : Word} {c : Bool × Bytes} (h : c ∈ candidates v) :
  1 ≤ c.2.length ∧ c.2.length ≤ 5
  := by
  have hrange : ∀ n ∈ (candidates v).map (·.2.length), 1 ≤ n ∧ n ≤ 5 := by
    rw [map_length_candidates]
    decide
  apply hrange
  apply List.mem_map_of_mem h

/-- What is written is a shortest candidate of those that pass and are long enough; the longest
one always passes. -/
theorem encode_mem_candidates {v : Word} {minLength : Nat} (h : minLength ≤ 5) :
  ∃ c ∈ candidates v, encode v minLength = c.2 ∧ minLength ≤ c.2.length
    ∧ ∀ c' ∈ candidates v, c'.1 = true → minLength ≤ c'.2.length → c.2.length ≤ c'.2.length
  := by
  set long : Bool × Bytes → Bool := fun c => c.1 && minLength ≤ c.2.length with hlong
  have hlast : (true, byte4 :: v.bigEndian) ∈ candidates v := by
    simp only [candidates, List.mem_cons, true_or, or_true]
  have hfound : ((candidates v).find? long).isSome := by
    apply List.find?_isSome.mpr
    refine ⟨_, hlast, ?_⟩
    simpa [hlong, Word.bigEndian] using h
  obtain ⟨c, hc⟩ := Option.isSome_iff_exists.mp hfound
  have hpass : c.1 = true ∧ minLength ≤ c.2.length := by
    simpa [hlong] using List.find?_some hc
  refine ⟨c, List.mem_of_find?_eq_some hc, ?_, hpass.2, ?_⟩
  · rw [encode_eq, hc]
    rfl
  · intro c' hmem htest hmin
    apply length_find?_le (candidates_sorted v) hc hmem
    simp [hlong, htest, hmin]

/-! ### Forms against candidates -/

/-- The words near a power of two. -/
def NearPower (v : Word) (i : Nat) : Prop :=
  let m : Word := 2 <<< i
  v = m ∨ v = m - 1 ∨ v = ~~~m ∨ v = -m

theorem powerOperandAt_isSome {v : Word} {i : Nat} (h : NearPower v i) :
  (powerOperandAt? v i).isSome
  := by
  rw [powerOperandAt?]
  split_ifs with h0 h1 h2 h3
  · rfl
  · rfl
  · rfl
  · rfl
  · rcases h with h | h | h | h
    · cases h0 h
    · cases h1 h
    · cases h2 h
    · cases h3 h

theorem nearPower_powerValue (b : UInt8) :
  NearPower (powerValue b) (b &&& 0x1f).toNat
  := by
  rw [powerValue]
  split
  · left
    rfl
  · right
    left
    rfl
  · right
    right
    left
    rfl
  · right
    right
    right
    rfl

/-- A word that the power form pushes has an operand for it, unless it is 0 or -1: the highest
shift leaves no bit. -/
theorem powerOperand_powerValue (b : UInt8) :
  (powerOperand? (powerValue b)).isSome ∨ powerValue b = 0 ∨ powerValue b = -1
  := by
  have hnear := nearPower_powerValue b
  have hshift : (b &&& 0x1f).toNat ≤ 31 := by
    rw [UInt8.toNat_and]
    apply Nat.and_le_right
  rcases Nat.lt_or_eq_of_le hshift with hlow | hhigh
  · left
    rw [powerOperand?, List.findSome?_isSome_iff]
    exact ⟨_, List.mem_range.mpr hlow, powerOperandAt_isSome hnear⟩
  · right
    rw [hhigh] at hnear
    rcases hnear with h | h | h | h
    · left
      exact h
    · right
      exact h
    · right
      exact h
    · left
      exact h

/-- A form of a word is as long as a candidate that passes, but for the power form of -1. -/
theorem Form.candidate {v : Word} {s : Bytes} (h : Form v s) (hexcept : ¬ (v = -1 ∧ s.length = 2)) :
  ∃ c ∈ candidates v, c.1 = true ∧ c.2.length = s.length
  := by
  have clear (k : Nat) (w mask : Word) (hmask : mask = BitVec.allOnes 32 <<< (8 * k))
      (h : w.toNat < 256 ^ k) : w &&& mask = 0#32 := by
    rw [hmask, and_high_eq_zero_iff, Nat.pow_mul]
    exact h
  have passes (i : Nat) {c : Bool × Bytes} (hi : (candidates v)[i]? = some c) (htest : c.1 = true)
      (hlength : c.2.length = s.length) : ∃ c ∈ candidates v, c.1 = true ∧ c.2.length = s.length :=
    ⟨c, List.mem_of_getElem? hi, htest, hlength⟩
  cases h with
  | minusOne h => exact passes 0 rfl (decide_eq_true h) rfl
  | zero h => exact passes 1 rfl (decide_eq_true h) rfl
  | one h => exact passes 2 rfl (decide_eq_true h) rfl
  | @power b h =>
    subst h
    rcases powerOperand_powerValue b with hsome | hzero | hones
    · exact passes 3 rfl hsome rfl
    · apply passes 4 rfl
      · rw [hzero]
        rfl
      · rfl
    · cases hexcept ⟨hones, rfl⟩
  | @plain opcode k hcount hv =>
    rcases operandCount_cases hcount with rfl | rfl | rfl | rfl
    · exact passes 4 rfl (decide_eq_true (clear 1 v _ (by decide) hv)) rfl
    · exact passes 6 rfl (decide_eq_true (clear 2 v _ (by decide) hv)) rfl
    · exact passes 8 rfl (decide_eq_true (clear 3 v _ (by decide) hv)) rfl
    · exact passes 9 rfl rfl rfl
  | @complemented opcode k hcount hk hv =>
    have hk' : k = 1 ∨ k = 2 := by
      have := operandCount_cases hcount
      omega
    rcases hk' with rfl | rfl
    · apply passes 5 rfl _ rfl
      apply decide_eq_true
      apply (or_low_eq_ones_iff rfl).mpr (clear 1 (~~~v) _ (by decide) hv)
    · apply passes 7 rfl _ rfl
      apply decide_eq_true
      apply (or_low_eq_ones_iff rfl).mpr (clear 2 (~~~v) _ (by decide) hv)

/-! ### The encoder and the decoder -/

/-- A push of at least a given length has this length or more, at most five bytes, and is read back
from the front of any bytes that do not go on with a complement. -/
theorem encode_reads_back (v : Word) (minLength : Nat) (rest : Bytes) (hmin : minLength ≤ 5)
    (hrest : rest.head? ≠ some complement) :
  max minLength 1 ≤ (encode v minLength).length ∧ (encode v minLength).length ≤ 5
    ∧ decode? (encode v minLength ++ rest) = some (v, (encode v minLength).length)
  := by
  obtain ⟨c, hc, hencode, hlong, _⟩ := encode_mem_candidates (v := v) hmin
  obtain ⟨hpos, hshort⟩ := length_candidate hc
  refine ⟨?_, ?_, decode_encode v minLength hrest⟩
  · rw [hencode]
    apply max_le hlong hpos
  · rw [hencode]
    exact hshort

/-- The push of -256 in at least four bytes is the complement of a two-byte operand. -/
theorem encode_reads_back_complement :
  encode (-256) 4 = [byte2, 0, 0xff, complement]
    ∧ decode? (encode (-256) 4 ++ [zero]) = some (-256, 4)
  := by
  have hencode : encode (-256) 4 = [byte2, 0, 0xff, complement] := by decide +kernel
  obtain ⟨_, _, hread⟩ := encode_reads_back (-256) 4 [zero] (by decide) (by decide)
  rw [hencode] at hread ⊢
  exact ⟨rfl, hread⟩

/-- What is written for a word is no longer than a form of the word that is long enough. -/
theorem length_encode_le {v : Word} {s : Bytes} {minLength : Nat} (h : Form v s)
    (hmin : minLength ≤ s.length) (hexcept : ¬ (v = -1 ∧ minLength = 2)) :
  (encode v minLength).length ≤ s.length
  := by
  obtain ⟨c', hc', htest, hlength⟩ :
      ∃ c' ∈ candidates v, c'.1 = true ∧ minLength ≤ c'.2.length ∧ c'.2.length ≤ s.length := by
    by_cases hpower : v = -1 ∧ s.length = 2
    · -- The power form of -1 is longer than its own opcode, which is long enough then.
      have hne : minLength ≠ 2 := fun htwo => hexcept ⟨hpower.1, htwo⟩
      refine ⟨_, List.mem_cons_self .., decide_eq_true hpower.1, ?_, ?_⟩
      · change minLength ≤ 1
        omega
      · change 1 ≤ s.length
        omega
    · obtain ⟨c', hc', htest, hlength⟩ := h.candidate hpower
      exact ⟨c', hc', htest, by omega, hlength.le⟩
  have hfive : minLength ≤ 5 := hlength.1.trans (length_candidate hc').2
  obtain ⟨c, _, hencode, _, hleast⟩ := encode_mem_candidates (v := v) hfive
  rw [hencode]
  exact (hleast c' hc' htest hlength.1).trans hlength.2

/-- No byte string that is long enough and is read completely as `v` is shorter than what is
written for `v`, except for -1 in at least two bytes. So the shortest push of a word is a shortest
byte string among those that are read completely as the word. -/
theorem encode_least (v : Word) (minLength : Nat) :
  ((∀ s : Bytes, minLength ≤ s.length → decode? s = some (v, s.length) →
      (encode v minLength).length ≤ s.length) ↔ ¬ (v = -1 ∧ minLength = 2))
    ∧ decode? (shortest v) = some (v, (shortest v).length)
    ∧ ∀ s : Bytes, decode? s = some (v, s.length) → (shortest v).length ≤ s.length
  := by
  refine ⟨⟨?_, ?_⟩, form_iff_decode.mp (encode_form v 1), ?_⟩
  · rintro hleast ⟨rfl, rfl⟩
    have hthree : (encode (-1) 2).length = 3 := by decide +kernel
    have hpower := hleast [power, 0x3f] (by decide) (by decide +kernel)
    rw [hthree] at hpower
    cases (by decide : ¬ 3 ≤ 2) hpower
  · intro hexcept s hmin hread
    apply length_encode_le (form_of_decode hread) hmin hexcept
  · intro s hread
    have hform := form_of_decode hread
    apply length_encode_le hform _ (by simp)
    cases s with
    | nil => cases hread
    | cons opcode rest => exact Nat.succ_pos _

/-- Two bytes are the least for the largest positive word, which is next to a power of two. -/
theorem encode_least_largest :
  shortest 0x7fffffff = [power, 0x3e]
    ∧ ∀ s : Bytes, decode? s = some (0x7fffffff, s.length) → 2 ≤ s.length
  := by
  have hshortest : shortest 0x7fffffff = [power, 0x3e] := by decide +kernel
  obtain ⟨_, _, hleast⟩ := encode_least 0x7fffffff 1
  rw [hshortest] at hleast
  exact ⟨hshortest, hleast⟩

end SpinHub.Push
