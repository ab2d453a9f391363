import Mathlib
import SpinHub.Json.Parser
import SpinHub.Json.Printer

/-!
# JSON texts are read back

A value is written as characters and read in two steps, tokens first. `Json.tokens` are the tokens
of a value: its characters are cut into them, and from them the reader on a stack builds the value
again. Numbers are whole here; a number ends where something stands that cannot continue it.
-/

namespace SpinHub.Json

/-! ### Strings -/

/-- A piece that stands for a character. -/
def Piece.Spells : Piece → Char → Prop
  | .char c, d => c = d
  | .unit u, d => u = d.toNat

theorem hexValue?_hexDigit {n : Nat} (h : n < 16) :
  hexValue? (hexDigit n) = some n
  := by
  have table : ∀ n < 16, hexValue? (hexDigit n) = some n := by decide
  apply table n h

/-- A letter behind a backslash. -/
theorem pieces?_letter {e c : Char} (hletter : e ≠ 'u') (h : escaped? e = some c) (s : List Char) :
  pieces? ('\\' :: e :: s) = (pieces? s).map fun (more, rest) => (.char c :: more, rest)
  := by
  rw [pieces?]
  · rw [h, Option.bind_eq_bind, Option.bind_some, Option.map_eq_bind]
    rfl
  · rintro a b c d rest rfl
    cases hletter rfl

/-- The number of a character in four digits behind a backslash and a `u`. -/
theorem pieces?_number {n : Nat} (h : n < 256) (s : List Char) :
  pieces? ('\\' :: 'u' :: '0' :: '0' :: hexDigit (n / 16) :: hexDigit (n % 16) :: s)
    = (pieces? s).map fun (more, rest) => (.unit n :: more, rest)
  := by
  have hunit : hexUnit? '0' '0' (hexDigit (n / 16)) (hexDigit (n % 16)) = some n := by
    have hzero : hexValue? '0' = some 0 := by decide
    have hvalue : ((0 * 16 + 0) * 16 + n / 16) * 16 + n % 16 = n := by
      omega
    rw [hexUnit?, hzero, hexValue?_hexDigit (by omega), hexValue?_hexDigit (by omega)]
    exact congrArg some hvalue
  rw [pieces?, hunit, Option.bind_eq_bind, Option.bind_some, Option.map_eq_bind]
  rfl

/-- A character that stands for itself. -/
theorem pieces?_plain {c : Char} (hquote : c ≠ '"') (hbackslash : c ≠ '\\')
    (hcontrol : ¬ c.toNat < 0x20) (s : List Char) :
  pieces? (c :: s) = (pieces? s).map fun (more, rest) => (.char c :: more, rest)
  := by
  rw [pieces?]
  · rw [if_neg (by simp [hbackslash, hcontrol]), Option.map_eq_bind]
    rfl
  · exact hquote
  · intro a b c d rest h
    cases hbackslash h
  · intro e rest h
    cases hbackslash h

/-- An escaped character is read as one piece, which stands for it. -/
theorem pieces?_escape (c : Char) :
  ∃ piece : Piece, piece.Spells c
    ∧ ∀ s, pieces? (escape c ++ s) = (pieces? s).map fun (more, rest) => (piece :: more, rest)
  := by
  unfold escape
  split_ifs with hquote hbackslash hnewline hreturn htab hback hfeed hcontrol
  · exact ⟨.char c, rfl, pieces?_letter (by decide) (congrArg some hquote.symm)⟩
  · exact ⟨.char c, rfl, pieces?_letter (by decide) (congrArg some hbackslash.symm)⟩
  · exact ⟨.char c, rfl, pieces?_letter (by decide) (congrArg some hnewline.symm)⟩
  · exact ⟨.char c, rfl, pieces?_letter (by decide) (congrArg some hreturn.symm)⟩
  · exact ⟨.char c, rfl, pieces?_letter (by decide) (congrArg some htab.symm)⟩
  · have hchar : Char.ofNat 8 = c := by rw [← hback, Char.ofNat_toNat]
    exact ⟨.char c, rfl, pieces?_letter (by decide) (congrArg some hchar)⟩
  · have hchar : Char.ofNat 12 = c := by rw [← hfeed, Char.ofNat_toNat]
    exact ⟨.char c, rfl, pieces?_letter (by decide) (congrArg some hchar)⟩
  · exact ⟨.unit c.toNat, rfl, pieces?_number (by omega)⟩
  · exact ⟨.char c, rfl, pieces?_plain hquote hbackslash hcontrol⟩

/-- The characters of a string up to its closing quote. -/
theorem pieces?_flatMap_escape (chars rest : List Char) :
  ∃ pieces, List.Forall₂ Piece.Spells pieces chars
    ∧ pieces? (chars.flatMap escape ++ '"' :: rest) = some (pieces, rest)
  := by
  induction chars with
  | nil =>
    use [], List.Forall₂.nil
    rw [List.flatMap_nil, List.nil_append, pieces?]
  | cons c chars ih =>
    obtain ⟨piece, hspells, hpiece⟩ := pieces?_escape c
    obtain ⟨pieces, hrest, hpieces⟩ := ih
    use piece :: pieces, List.Forall₂.cons hspells hrest
    rw [List.flatMap_cons, List.append_assoc, hpiece, hpieces]
    rfl

/-- The number of a character is no half of a surrogate pair. -/
theorem not_surrogate (c : Char) :
  ¬ (isHighSurrogate c.toNat = true ∨ isLowSurrogate c.toNat = true)
  := by
  have hvalid : c.toNat < 0xd800 ∨ 0xdfff < c.toNat ∧ c.toNat < 0x110000 := c.valid
  simp only [isHighSurrogate, isLowSurrogate, decide_eq_true_eq]
  omega

/-- A character named by its number stands for itself, whatever follows it. -/
theorem assemble?_unit (c : Char) (rest : List Piece) :
  assemble? (.unit c.toNat :: rest) = (assemble? rest).map (c :: ·)
  := by
  have hnone := not_surrogate c
  match rest with
  | [] => simp only [assemble?, if_neg hnone, Char.ofNat_toNat]
  | .char d :: rest => simp only [assemble?, if_neg hnone, Char.ofNat_toNat]
  | .unit v :: rest =>
    rw [assemble?, if_neg fun h => hnone (.inl h.1), if_neg hnone, Char.ofNat_toNat]

/-- Pieces that stand for characters are put together to these characters. -/
theorem assemble?_of_spells {pieces : List Piece} {chars : List Char}
    (h : List.Forall₂ Piece.Spells pieces chars) :
  assemble? pieces = some chars
  := by
  induction h with
  | nil => rfl
  | @cons piece c pieces chars hpiece hrest ih =>
    cases piece with
    | char d =>
      cases hpiece
      rw [assemble?, ih, Option.map_some]
    | unit u =>
      cases hpiece
      rw [assemble?_unit, ih, Option.map_some]

/-- A string in quotes is one token. -/
theorem token?_quoted (s : String) (rest : List Char) :
  token? (quoted s ++ rest) = some (.text (some s), rest)
  := by
  obtain ⟨pieces, hspells, hpieces⟩ := pieces?_flatMap_escape s.toList rest
  have htext : (assemble? pieces).map String.ofList = some s := by
    rw [assemble?_of_spells hspells, Option.map_some, String.ofList_toList]
  rw [quoted, List.append_assoc, List.cons_append, List.singleton_append, token?, hpieces]
  exact congrArg (fun text => some (Token.text text, rest)) htext

/-! ### Numbers -/

/-- A text that does not go on with a number. -/
def Ends (rest : List Char) : Prop :=
  ∀ c ∈ rest.head?, c.isDigit = false ∧ c ≠ '.' ∧ c ≠ 'e' ∧ c ≠ 'E'

/-- A run of digits goes up to what ends it. -/
theorem digits_append {run rest : List Char} (hrun : ∀ c ∈ run, c.isDigit = true)
    (hrest : Ends rest) :
  digits (run ++ rest) = (run, rest)
  := by
  have hstop : rest.takeWhile Char.isDigit = [] ∧ rest.dropWhile Char.isDigit = rest := by
    cases rest with
    | nil => exact ⟨rfl, rfl⟩
    | cons c rest => simp [(hrest c rfl).1]
  rw [digits, List.takeWhile_append_of_pos hrun, List.dropWhile_append_of_pos hrun, hstop.1,
    hstop.2, List.append_nil]

/-- Only zero starts with the digit zero. -/
theorem head?_toDigits {n : Nat} (h : 0 < n) :
  (Nat.toDigits 10 n).head? ≠ some '0'
  := by
  induction n using Nat.base_induction 10 (by decide) with
  | single n hn =>
    rw [Nat.toDigits_of_lt_base hn]
    interval_cases n <;> decide
  | digit n d hd hn ih =>
    rw [← Nat.toDigits_append_toDigits (by decide) hn hd,
      List.head?_append_of_ne_nil _ Nat.toDigits_ne_nil]
    exact ih hn

theorem isDigit_of_mem_toDigits {n : Nat} {c : Char} (h : c ∈ Nat.toDigits 10 n) :
  c.isDigit = true
  := Nat.isDigit_of_mem_toDigits (by decide) (by decide) h

/-- The digits of a number are the part before its point. -/
theorem wholePart?_toDigits (n : Nat) {rest : List Char} (hrest : Ends rest) :
  wholePart? (Nat.toDigits 10 n ++ rest) = some (Nat.toDigits 10 n, rest)
  := by
  obtain rfl | hpos := Nat.eq_zero_or_pos n
  · rw [Nat.toDigits_zero]
    rfl
  rw [wholePart?, digits_append (fun c => isDigit_of_mem_toDigits) hrest, if_neg]
  · simp
  · rintro rest' h
    apply head?_toDigits hpos
    rw [← List.head?_append_of_ne_nil _ Nat.toDigits_ne_nil, h, List.head?_cons]

/-- A whole number without its sign. -/
theorem unsigned?_toDigits (negative : Bool) (n : Nat) {rest : List Char} (hrest : Ends rest) :
  unsigned? negative (Nat.toDigits 10 n ++ rest)
    = some ({ negative, whole := Nat.toDigits 10 n }, rest)
  := by
  have hfraction : fractionPart? rest = some ([], rest) := by
    rw [fractionPart?]
    rintro rest rfl
    exact (hrest '.' rfl).2.1 rfl
  have hexponent : exponentPart? rest = some (none, rest) := by
    match rest with
    | [] => rfl
    | c :: rest =>
      have hc : ¬ (c = 'e' ∨ c = 'E') := not_or.mpr (hrest c rfl).2.2
      simp only [exponentPart?, if_neg hc]
  rw [unsigned?, wholePart?_toDigits n hrest]
  simp [hfraction, hexponent]

/-- A text that starts with a digit starts with a number. -/
theorem token?_digit {c : Char} (h : c.isDigit = true) (s : List Char) :
  token? (c :: s) = (unsigned? false (c :: s)).map fun (n, rest) => (.number n, rest)
  := by
  rw [token?]
  all_goals
    intro rest hstart
    cases hstart
    contradiction

/-- A whole number is one token, if the text behind it does not go on with the number. -/
theorem token?_ofInt (n : Int) {rest : List Char} (hrest : Ends rest) :
  token? ((Numeral.ofInt n).chars ++ rest) = some (.number (.ofInt n), rest)
  := by
  have hchars : (Numeral.ofInt n).chars
      = (if n < 0 then ['-'] else []) ++ Nat.toDigits 10 n.natAbs := by
    simp [Numeral.chars, Numeral.ofInt]
  rw [hchars]
  split_ifs with hneg
  · rw [List.append_assoc, List.singleton_append, token?, unsigned?_toDigits true _ hrest]
    simp [Numeral.ofInt, hneg]
  · have hdigits : Nat.toDigits 10 n.natAbs ≠ [] := Nat.toDigits_ne_nil
    obtain ⟨c, run, hrun⟩ := List.exists_cons_of_ne_nil hdigits
    have hc : c.isDigit = true := by
      apply isDigit_of_mem_toDigits
      rw [hrun]
      exact List.mem_cons_self
    have hunsigned := unsigned?_toDigits false n.natAbs hrest
    rw [hrun, List.cons_append] at hunsigned
    rw [List.nil_append, hrun, List.cons_append, token?_digit hc, hunsigned]
    simp [Numeral.ofInt, hneg, hrun]

/-! ### Cutting a text into tokens -/

mutual

/-- The tokens of a value. -/
def tokens : Json → List Token
  | .null => [.null]
  | .bool value => [.bool value]
  | .number value => [.number value]
  | .text value => [.text value]
  | .list [] => [.openList, .closeList]
  | .list (item :: items) => .openList :: item.tokens ++ itemTokens items
  | .object [] => [.openObject, .closeObject]
  | .object ((name, value) :: fields) =>
    .openObject :: .text name :: .colon :: value.tokens ++ fieldTokens fields

/-- The rest of a list after its first item. -/
def itemTokens : List Json → List Token
  | [] => [.closeList]
  | item :: items => .comma :: item.tokens ++ itemTokens items

/-- The rest of an object after its first field. -/
def fieldTokens : List (JsonText × Json) → List Token
  | [] => [.closeObject]
  | (name, value) :: fields => .comma :: .text name :: .colon :: value.tokens ++ fieldTokens fields

end

mutual

/-- Every number of the value is a whole number as it is usually written. -/
def Whole : Json → Prop
  | .number value => ∃ n, value = .ofInt n
  | .list items => WholeItems items
  | .object fields => WholeFields fields
  | .null | .bool _ | .text _ => True

/-- Every number of the items is whole. -/
def WholeItems : List Json → Prop
  | [] => True
  | item :: items => item.Whole ∧ WholeItems items

/-- Every number of the fields is whole. -/
def WholeFields : List (JsonText × Json) → Prop
  | [] => True
  | (_, value) :: fields => value.Whole ∧ WholeFields fields

end

/-- No token starts with a blank. -/
theorem token?_blank {c : Char} (h : isBlank c = true) (s : List Char) :
  token? (c :: s) = none
  := by
  simp only [isBlank, Bool.or_eq_true, decide_eq_true_eq] at h
  obtain ((rfl | rfl) | rfl) | rfl := h <;> rfl

/-- A token in front of a text. -/
theorem tokens?_of_token {s rest : List Char} {t : Token} {more : List Token}
    (ht : token? s = some (t, rest)) (hmore : tokens? rest = some more) :
  tokens? s = some (t :: more)
  := by
  match s with
  | [] => cases ht
  | c :: s =>
    have hblank : ¬ isBlank c = true := by
      intro h
      rw [token?_blank h] at ht
      cases ht
    have hdrop : (c :: s).dropWhile isBlank = c :: s := List.dropWhile_cons_of_neg hblank
    -- The matches of `tokens?` keep their equations for its termination, so they are split.
    rw [tokens?.eq_def]
    split
    next hs =>
      rw [hdrop] at hs
      cases hs
    next c' s' hs =>
      rw [hdrop] at hs
      cases hs
      split
      next hnone =>
        rw [ht] at hnone
        cases hnone
      next t' rest' hsome =>
        rw [ht] at hsome
        cases hsome
        rw [hmore, Option.map_some]

/-- The lone half of a surrogate pair is no text. -/
theorem token?_half (rest : List Char) :
  token? ('"' :: '\\' :: 'u' :: 'd' :: '8' :: '0' :: '0' :: '"' :: rest) = some (.text none, rest)
  := rfl

/-- The name of a field is a text and a colon. -/
theorem tokens?_nameChars (name : JsonText) {rest : List Char} {more : List Token}
    (hmore : tokens? rest = some more) :
  tokens? (nameChars name ++ rest) = some (.text name :: .colon :: more)
  := by
  have hcolon : tokens? (':' :: rest) = some (.colon :: more) := tokens?_of_token rfl hmore
  cases name with
  | none =>
    -- Not by the equations of `nameChars`: they compare the literal with that of `token?`.
    have hchars : nameChars none = ['"', '\\', 'u', 'd', '8', '0', '0', '"', ':'] := rfl
    rw [hchars]
    exact tokens?_of_token (token?_half _) hcolon
  | some s =>
    have hchars : nameChars (some s) = quoted s ++ [':'] := rfl
    rw [hchars, List.append_assoc]
    exact tokens?_of_token (token?_quoted s _) hcolon

/-- What follows an item of a list ends a number. -/
theorem ends_itemChars (items : List Json) (rest : List Char) :
  Ends (itemChars items ++ rest)
  := by
  cases items <;> simp [Ends, itemChars]

/-- What follows a field of an object ends a number. -/
theorem ends_fieldChars (fields : List (JsonText × Json)) (rest : List Char) :
  Ends (fieldChars fields ++ rest)
  := by
  cases fields <;> simp [Ends, fieldChars]

mutual

/-- The characters of a value are cut into its tokens. -/
theorem tokens?_chars (j : Json) (hwhole : j.Whole) {rest : List Char} {more : List Token}
    (hrest : Ends rest) (hmore : tokens? rest = some more) :
  tokens? (j.chars ++ rest) = some (j.tokens ++ more)
  := by
  match j with
  | .null => exact tokens?_of_token rfl hmore
  | .bool true => exact tokens?_of_token rfl hmore
  | .bool false => exact tokens?_of_token rfl hmore
  | .number value =>
    obtain ⟨n, rfl⟩ := hwhole
    exact tokens?_of_token (token?_ofInt n hrest) hmore
  | .text none =>
    have hchars : (Json.text none).chars = ['"', '\\', 'u', 'd', '8', '0', '0', '"'] := rfl
    rw [hchars]
    exact tokens?_of_token (token?_half rest) hmore
  | .text (some s) => exact tokens?_of_token (token?_quoted s rest) hmore
  | .list [] => exact tokens?_of_token rfl (tokens?_of_token rfl hmore)
  | .list (item :: items) =>
    obtain ⟨hitem, hitems⟩ := hwhole
    have hbehind := tokens?_itemChars items hitems hmore
    have hfirst := tokens?_chars item hitem (ends_itemChars items rest) hbehind
    have hchars : (Json.list (item :: items)).chars = '[' :: (item.chars ++ itemChars items) := rfl
    rw [hchars, tokens, List.append_assoc, List.cons_append, List.append_assoc]
    exact tokens?_of_token rfl hfirst
  | .object [] => exact tokens?_of_token rfl (tokens?_of_token rfl hmore)
  | .object ((name, value) :: fields) =>
    obtain ⟨hvalue, hfields⟩ := hwhole
    have hbehind := tokens?_fieldChars fields hfields hmore
    have hfirst := tokens?_chars value hvalue (ends_fieldChars fields rest) hbehind
    have hname := tokens?_nameChars name hfirst
    have hchars : (Json.object ((name, value) :: fields)).chars
        = '\x7b' :: (nameChars name ++ (value.chars ++ fieldChars fields)) := by
      rw [← List.append_assoc]
      rfl
    rw [hchars, tokens, List.cons_append, List.append_assoc, List.append_assoc, List.append_assoc]
    exact tokens?_of_token rfl hname

theorem tokens?_itemChars (items : List Json) (hwhole : WholeItems items) {rest : List Char}
    {more : List Token} (hmore : tokens? rest = some more) :
  tokens? (itemChars items ++ rest) = some (itemTokens items ++ more)
  := by
  match items with
  | [] => exact tokens?_of_token rfl hmore
  | item :: items =>
    obtain ⟨hitem, hitems⟩ := hwhole
    have hbehind := tokens?_itemChars items hitems hmore
    have hfirst := tokens?_chars item hitem (ends_itemChars items rest) hbehind
    rw [itemChars, itemTokens, List.append_assoc, List.append_assoc]
    exact tokens?_of_token rfl hfirst

theorem tokens?_fieldChars (fields : List (JsonText × Json)) (hwhole : WholeFields fields)
    {rest : List Char} {more : List Token} (hmore : tokens? rest = some more) :
  tokens? (fieldChars fields ++ rest) = some (fieldTokens fields ++ more)
  := by
  match fields with
  | [] => exact tokens?_of_token rfl hmore
  | (name, value) :: fields =>
    obtain ⟨hvalue, hfields⟩ := hwhole
    have hbehind := tokens?_fieldChars fields hfields hmore
    have hfirst := tokens?_chars value hvalue (ends_fieldChars fields rest) hbehind
    have hname := tokens?_nameChars name hfirst
    rw [fieldChars, fieldTokens, List.append_assoc, List.append_assoc, List.append_assoc]
    exact tokens?_of_token rfl hname

end

/-! ### Reading the tokens -/

/-- What a reader comes to on some tokens. -/
def Reader.run (reader : Reader) (tokens : List Token) : Option Reader :=
  tokens.foldlM Reader.step reader

/-- One token, and then the others. -/
theorem Reader.run_cons {reader next : Reader} {t : Token} (h : reader.step t = some next)
    (tokens : List Token) :
  reader.run (t :: tokens) = next.run tokens
  := by
  rw [run, List.foldlM_cons, h, Option.bind_eq_bind, Option.bind_some, run]

/-- An open list without items reads its first item as any value. -/
theorem Reader.run_listStart (j : Json) (stack : List Frame) (more : List Token) :
  (Reader.listStart stack).run (j.tokens ++ more)
    = (Reader.value (.items [] :: stack)).run (j.tokens ++ more)
  := by
  obtain ⟨t, ts, htokens, hopen⟩ : ∃ t ts, j.tokens = t :: ts ∧ t ≠ .closeList := by
    unfold tokens
    split <;> simp
  have hstep : (Reader.listStart stack).step t = (Reader.value (.items [] :: stack)).step t :=
    if_neg hopen
  rw [htokens, List.cons_append, run, run, List.foldlM_cons, List.foldlM_cons, hstep]

mutual

/-- The tokens of a value complete it. -/
theorem Reader.run_tokens (j : Json) (stack : List Frame) (more : List Token) :
  (Reader.value stack).run (j.tokens ++ more) = (Reader.complete j stack).run more
  := by
  match j with
  | .null => exact run_cons rfl more
  | .bool b => exact run_cons rfl more
  | .number n => exact run_cons rfl more
  | .text s => exact run_cons rfl more
  | .list [] =>
    rw [tokens, List.cons_append, List.cons_append, run_cons rfl, run_cons rfl, List.nil_append]
  | .list (item :: items) =>
    rw [tokens, List.append_assoc, List.cons_append, run_cons rfl, run_listStart,
      run_tokens item, run_itemTokens items]
    rfl
  | .object [] =>
    rw [tokens, List.cons_append, List.cons_append, run_cons rfl, run_cons rfl, List.nil_append]
  | .object ((n, v) :: fields) =>
    rw [tokens, List.append_assoc, List.cons_append, List.cons_append, List.cons_append,
      run_cons rfl, run_cons rfl, run_cons rfl, run_tokens v, run_fieldTokens fields]
    rfl

/-- The rest of a list completes it. -/
theorem Reader.run_itemTokens (items : List Json) (v : Json) (done : List Json)
    (stack : List Frame) (more : List Token) :
  (Reader.complete v (.items done :: stack)).run (itemTokens items ++ more)
    = (Reader.complete (.list (done.reverse ++ v :: items)) stack).run more
  := by
  match items with
  | [] =>
    rw [itemTokens, List.cons_append, run_cons rfl, List.nil_append, List.reverse_cons]
  | item :: items =>
    rw [itemTokens, List.append_assoc, List.cons_append, run_cons rfl, run_tokens item,
      run_itemTokens items, List.reverse_cons, List.append_assoc, List.singleton_append]

/-- The rest of an object completes it. -/
theorem Reader.run_fieldTokens (fields : List (JsonText × Json)) (n : JsonText) (v : Json)
    (done : List (JsonText × Json)) (stack : List Frame) (more : List Token) :
  (Reader.complete v (.field n done :: stack)).run (fieldTokens fields ++ more)
    = (Reader.complete (.object (done.reverse ++ (n, v) :: fields)) stack).run more
  := by
  match fields with
  | [] =>
    rw [fieldTokens, List.cons_append, run_cons rfl, List.nil_append, List.reverse_cons]
  | (m, w) :: fields =>
    rw [fieldTokens, List.append_assoc, List.cons_append, List.cons_append, List.cons_append,
      run_cons rfl, run_cons rfl, run_cons rfl, run_tokens w, run_fieldTokens fields,
      List.reverse_cons, List.append_assoc, List.singleton_append]

end

/-- The text of a value whose numbers are whole is read as the value. -/
theorem parse?_render {j : Json} (hwhole : j.Whole) :
  parse? j.render = some j
  := by
  have hcut : tokens? j.chars = some j.tokens := by
    have hends : Ends [] := by
      rintro c ⟨⟩
    have hend : tokens? [] = some [] := by
      rw [tokens?]
      rfl
    rw [← List.append_nil j.chars, ← List.append_nil j.tokens]
    exact tokens?_chars j hwhole hends hend
  have hread : j.tokens.foldlM Reader.step (.value []) = some (.complete j []) := by
    have hrun := Reader.run_tokens j [] []
    rw [List.append_nil] at hrun
    exact hrun
  rw [parse?, render, String.toList_ofList, hcut, Option.bind_some, ofTokens?, hread]

end SpinHub.Json
