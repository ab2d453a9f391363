import SpinHub.Json

/-!
# JSON tokens

Text is cut into tokens: brackets, separators, words, numbers and strings. Blanks may stand
between tokens and nowhere else. Numbers have no leading zeros and at least one digit on
both sides of a point; strings hold no control characters.
-/

namespace SpinHub.Json

/-- A token of a JSON text. -/
inductive Token where
  | openList
  | closeList
  | openObject
  | closeObject
  | comma
  | colon
  | null
  | bool (value : Bool)
  | number (value : Numeral)
  | text (value : JsonText)
deriving DecidableEq

/-- The blanks between tokens. -/
def isBlank (c : Char) : Bool := c = ' ' || c = '\n' || c = '\t' || c = '\r'

/-! ### Strings -/

/-- A piece of a string: a character, or a sixteen-bit unit named by an escape. -/
inductive Piece where
  | char (c : Char)
  | unit (u : Nat)
deriving DecidableEq

/-- The number a hexadecimal digit stands for. -/
def hexValue? (c : Char) : Option Nat :=
  if '0' ≤ c ∧ c ≤ '9' then some (c.toNat - '0'.toNat)
  else if 'a' ≤ c ∧ c ≤ 'f' then some (c.toNat - 'a'.toNat + 10)
  else if 'A' ≤ c ∧ c ≤ 'F' then some (c.toNat - 'A'.toNat + 10)
  else none

/-- The number four hexadecimal digits stand for. -/
def hexUnit? (a b c d : Char) : Option Nat := do
  let a ← hexValue? a
  let b ← hexValue? b
  let c ← hexValue? c
  let d ← hexValue? d
  return ((a * 16 + b) * 16 + c) * 16 + d

/-- The character that a one-letter escape stands for. -/
def escaped? (c : Char) : Option Char :=
  match c with
  | '"' => some '"'
  | '\\' => some '\\'
  | '/' => some '/'
  | 'b' => some (Char.ofNat 8)
  | 'f' => some (Char.ofNat 12)
  | 'n' => some '\n'
  | 'r' => some '\r'
  | 't' => some '\t'
  | _ => none

/-- The pieces of a string up to its closing quote, and the text after it. -/
def pieces? : List Char → Option (List Piece × List Char)
  | [] => none
  | '"' :: rest => some ([], rest)
  | '\\' :: 'u' :: a :: b :: c :: d :: rest => do
    let u ← hexUnit? a b c d
    let (more, rest) ← pieces? rest
    return (.unit u :: more, rest)
  | '\\' :: e :: rest => do
    let c ← escaped? e
    let (more, rest) ← pieces? rest
    return (.char c :: more, rest)
  | c :: rest => do
    if c.toNat < 0x20 ∨ c = '\\' then none
    else
      let (more, rest) ← pieces? rest
      return (.char c :: more, rest)

/-- The first halves of surrogate pairs. -/
def isHighSurrogate (u : Nat) : Bool := 0xd800 ≤ u ∧ u < 0xdc00

/-- The second halves of surrogate pairs. -/
def isLowSurrogate (u : Nat) : Bool := 0xdc00 ≤ u ∧ u < 0xe000

/-- The characters of a string, if every half of a surrogate pair stands with its other half. -/
def assemble? : List Piece → Option (List Char)
  | [] => some []
  | .char c :: rest => (assemble? rest).map (c :: ·)
  | .unit u :: .unit v :: rest =>
    if isHighSurrogate u ∧ isLowSurrogate v then
      (assemble? rest).map (Char.ofNat (0x10000 + (u - 0xd800) * 0x400 + (v - 0xdc00)) :: ·)
    else if isHighSurrogate u ∨ isLowSurrogate u then none
    else (assemble? (.unit v :: rest)).map (Char.ofNat u :: ·)
  | .unit u :: rest =>
    if isHighSurrogate u ∨ isLowSurrogate u then none
    else (assemble? rest).map (Char.ofNat u :: ·)

/-! ### Numbers -/

/-- A run of digits from the front of a text, and the text after it. -/
def digits (s : List Char) : List Char × List Char :=
  (s.takeWhile Char.isDigit, s.dropWhile Char.isDigit)

/-- The digits before a point: a zero alone, or digits that do not start with zero. -/
def wholePart? : List Char → Option (List Char × List Char)
  | '0' :: rest => some (['0'], rest)
  | s => if (digits s).1.isEmpty then none else some (digits s)

/-- The digits after a point, none if there is no point. -/
def fractionPart? : List Char → Option (List Char × List Char)
  | '.' :: rest => if (digits rest).1.isEmpty then none else some (digits rest)
  | s => some ([], s)

/-- The digits of a power of ten, with the sign that stood before them. -/
def powerDigits? (negative : Bool) (s : List Char) : Option (Option Int × List Char) :=
  if (digits s).1.isEmpty then none
  else
    let value : Int := digitsValue (digits s).1
    some (some (if negative then -value else value), (digits s).2)

/-- The power of ten, none if there is none. -/
def exponentPart? : List Char → Option (Option Int × List Char)
  | c :: rest =>
    if c = 'e' ∨ c = 'E' then
      match rest with
      | '-' :: rest => powerDigits? true rest
      | '+' :: rest => powerDigits? false rest
      | rest => powerDigits? false rest
    else some (none, c :: rest)
  | [] => some (none, [])

/-- A number without its sign. -/
def unsigned? (negative : Bool) (s : List Char) : Option (Numeral × List Char) := do
  let (whole, s) ← wholePart? s
  let (fraction, s) ← fractionPart? s
  let (exponent, s) ← exponentPart? s
  return ({ negative, whole, fraction, exponent }, s)

/-! ### Tokens -/

/-- The first token of a text that starts with one, and the text after it. -/
def token? : List Char → Option (Token × List Char)
  | '[' :: rest => some (.openList, rest)
  | ']' :: rest => some (.closeList, rest)
  | '\x7b' :: rest => some (.openObject, rest)
  | '\x7d' :: rest => some (.closeObject, rest)
  | ',' :: rest => some (.comma, rest)
  | ':' :: rest => some (.colon, rest)
  | 'n' :: 'u' :: 'l' :: 'l' :: rest => some (.null, rest)
  | 't' :: 'r' :: 'u' :: 'e' :: rest => some (.bool true, rest)
  | 'f' :: 'a' :: 'l' :: 's' :: 'e' :: rest => some (.bool false, rest)
  | '"' :: rest => (pieces? rest).map fun (pieces, rest) =>
      (.text ((assemble? pieces).map String.ofList), rest)
  | '-' :: rest => (unsigned? true rest).map fun (n, rest) => (.number n, rest)
  | s => (unsigned? false s).map fun (n, rest) => (.number n, rest)

/-! ### Every token uses up text -/

/-- A string uses up at least its closing quote. -/
theorem pieces?_length {s rest : List Char} {found : List Piece}
    (h : pieces? s = some (found, rest)) :
  rest.length < s.length
  := by
  fun_induction pieces? s generalizing found with
  | case1 => simp at h
  | case2 r =>
    simp only [Option.some.injEq, Prod.mk.injEq] at h
    simp [← h.2]
  | case3 a b c d r ih =>
    simp only [Option.bind_eq_bind, Option.bind_eq_some_iff] at h
    obtain ⟨u, -, ⟨more, r'⟩, hr, h⟩ := h
    simp only [Option.pure_def, Option.some.injEq, Prod.mk.injEq] at h
    have := ih (h.2 ▸ hr)
    simp only [List.length_cons]
    omega
  | case4 e r _ ih =>
    simp only [Option.bind_eq_bind, Option.bind_eq_some_iff] at h
    obtain ⟨u, -, ⟨more, r'⟩, hr, h⟩ := h
    simp only [Option.pure_def, Option.some.injEq, Prod.mk.injEq] at h
    have := ih (h.2 ▸ hr)
    simp only [List.length_cons]
    omega
  | case5 c r _ _ _ ih => simp at h
  | case6 c r _ _ _ _ ih =>
    simp only [Option.bind_eq_bind, Option.bind_eq_some_iff] at h
    obtain ⟨⟨more, r'⟩, hr, h⟩ := h
    simp only [Option.pure_def, Option.some.injEq, Prod.mk.injEq] at h
    have := ih (h.2 ▸ hr)
    simp only [List.length_cons]
    omega

private theorem digits_length (s : List Char) :
  (digits s).2.length ≤ s.length
  := (List.dropWhile_suffix _).length_le

private theorem digits_length_of_ne_nil {s : List Char} (h : (digits s).1.isEmpty = false) :
  (digits s).2.length < s.length
  := by
  have hsplit := congrArg List.length (List.takeWhile_append_dropWhile (p := Char.isDigit) (l := s))
  rw [List.length_append] at hsplit
  have hpos : 0 < (s.takeWhile Char.isDigit).length := by
    apply List.length_pos_iff.mpr
    intro hnil
    simp [digits, hnil] at h
  simp only [digits]
  omega

private theorem wholePart?_length {s run rest : List Char} (h : wholePart? s = some (run, rest)) :
  rest.length < s.length
  := by
  unfold wholePart? at h
  split at h
  · simp only [Option.some.injEq, Prod.mk.injEq] at h
    simp [← h.2]
  · split at h
    · simp at h
    next hne =>
      simp only [Option.some.injEq] at h
      have := digits_length_of_ne_nil (s := s) (by simpa using hne)
      rw [h] at this
      exact this

private theorem fractionPart?_length {s run rest : List Char}
    (h : fractionPart? s = some (run, rest)) :
  rest.length ≤ s.length
  := by
  unfold fractionPart? at h
  split at h
  next r =>
    split at h
    · simp at h
    · simp only [Option.some.injEq] at h
      have := digits_length r
      rw [h] at this
      simp only [List.length_cons] at this ⊢
      omega
  · simp only [Option.some.injEq, Prod.mk.injEq] at h
    simp [← h.2]

private theorem powerDigits?_length {negative : Bool} {s rest : List Char} {e : Option Int}
    (h : powerDigits? negative s = some (e, rest)) :
  rest.length ≤ s.length
  := by
  unfold powerDigits? at h
  split at h
  · simp at h
  · simp only [Option.some.injEq, Prod.mk.injEq] at h
    rw [← h.2]
    exact digits_length s

private theorem exponentPart?_length {s rest : List Char} {e : Option Int}
    (h : exponentPart? s = some (e, rest)) :
  rest.length ≤ s.length
  := by
  unfold exponentPart? at h
  split at h
  next c r =>
    split at h
    · split at h <;>
      · have := powerDigits?_length h
        simp only [List.length_cons] at this ⊢
        omega
    · simp only [Option.some.injEq, Prod.mk.injEq] at h
      simp [← h.2]
  · simp only [Option.some.injEq, Prod.mk.injEq] at h
    simp [← h.2]

/-- A number uses up at least one digit. -/
theorem unsigned?_length {negative : Bool} {s rest : List Char} {n : Numeral}
    (h : unsigned? negative s = some (n, rest)) :
  rest.length < s.length
  := by
  simp only [unsigned?, Option.bind_eq_bind, Option.bind_eq_some_iff] at h
  obtain ⟨⟨whole, s₁⟩, hwhole, ⟨fraction, s₂⟩, hfraction, ⟨exponent, s₃⟩, hexponent, h⟩ := h
  simp only [Option.pure_def, Option.some.injEq, Prod.mk.injEq] at h
  have h₁ := wholePart?_length hwhole
  have h₂ := fractionPart?_length hfraction
  have h₃ := exponentPart?_length hexponent
  simp only at h₂ h₃
  rw [← h.2]
  omega

/-- A token uses up text. -/
theorem token?_length {s rest : List Char} {t : Token} (h : token? s = some (t, rest)) :
  rest.length < s.length
  := by
  unfold token? at h
  split at h
  all_goals try
    simp only [Option.some.injEq, Prod.mk.injEq] at h
    rw [← h.2]
    simp only [List.length_cons]
    omega
  · simp only [Option.map_eq_some_iff, Prod.mk.injEq] at h
    obtain ⟨⟨found, r⟩, hfound, -, rfl⟩ := h
    have := pieces?_length hfound
    simp only [List.length_cons]
    omega
  · simp only [Option.map_eq_some_iff, Prod.mk.injEq] at h
    obtain ⟨⟨n, r⟩, hn, -, rfl⟩ := h
    have := unsigned?_length hn
    simp only [List.length_cons]
    omega
  · simp only [Option.map_eq_some_iff, Prod.mk.injEq] at h
    obtain ⟨⟨n, r⟩, hn, -, rfl⟩ := h
    exact unsigned?_length hn

/-- The tokens of a text. -/
def tokens? (s : List Char) : Option (List Token) :=
  match _hs : s.dropWhile isBlank with
  | [] => some []
  | c :: cs =>
    match _ht : token? (c :: cs) with
    | none => none
    | some (t, rest) => (tokens? rest).map (t :: ·)
termination_by s.length
decreasing_by
  have h₁ := token?_length _ht
  have h₂ := (List.dropWhile_suffix (l := s) isBlank).length_le
  rw [_hs] at h₂
  omega

end SpinHub.Json
