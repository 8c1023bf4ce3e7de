import DeclaredApi.Proofs.Json.NumberText

/-!
# `DeclaredApi.Proofs.Json.TokenText`: tokens and their texts

`scanToken?_text`: from the text of a token one token is scanned, with the rest of the text left
as it stands. Only a number needs to know the rest, since digits go on until something else
comes. What is scanned is the token itself (`Token.reread`), but for a double: that is read by
best effort, and may be read as a neighbour. Still no two tokens have one text
(`Token.text_injective`), because a text tells the double that it is nearest to.

A character of a string is written as itself or as an escape. `exists_piece` says what both
forms have in common: the reader takes one piece from them, and the piece stands for the
character.
-/

set_option autoImplicit false

namespace DeclaredApi.Json

/-! ### Strings -/

/-- A hexadecimal digit has the value that it was made for. -/
theorem hexValue?_digitChar {n : Nat} (hn : n < 16) : hexValue? (Nat.digitChar n) = some n := by
  have hall : ∀ m < 16, hexValue? (Nat.digitChar m) = some m := by decide
  exact hall n hn

/-- A control character is written as its code unit. -/
theorem unitValue?_hexPair {n : Nat} (hn : n < 256) :
    unitValue? '0' '0' (Nat.digitChar (n / 16 % 16)) (Nat.digitChar (n % 16)) = some n := by
  have hzero : hexValue? '0' = some 0 := rfl
  simp only [unitValue?, hzero, hexValue?_digitChar (Nat.mod_lt _ (show 0 < 16 by decide)),
    Option.bind_eq_bind, Option.bind_some, Option.pure_def, Option.some.injEq]
  omega

/-- A code unit that is no surrogate stands for its character. -/
theorem characters?_unit {n : Nat} (hn : n < 0xD800) (more : List Piece) :
    characters? (.unit n :: more) = (characters? more).map (Char.ofNat n :: ·) := by
  have hplain : ¬(0xD800 ≤ n ∧ n < 0xE000) := by omega
  rcases more with _ | ⟨c | low, more⟩
  · exact if_neg hplain
  · exact if_neg hplain
  · rw [characters?, if_neg (by omega), if_neg (by omega)]

/-- A character of a string is read as one piece, and the piece stands for the character. -/
theorem exists_piece (c : Char) : ∃ piece : Piece,
    (∀ rest, pieces? (charText c ++ rest)
      = (pieces? rest).map fun (pieces, after) => (piece :: pieces, after)) ∧
    ∀ more, characters? (piece :: more) = (characters? more).map (c :: ·) := by
  unfold charText
  split
  -- The last case of `charText` is the one without an escape of its own.
  case h_8 hquote hslash _ _ _ _ _ =>
      by_cases hcontrol : c.toNat < 0x20
      · refine ⟨.unit c.toNat, ?_, ?_⟩
        · intro rest
          rw [if_pos hcontrol]
          show (unitValue? '0' '0' _ _).bind (fun n => (pieces? rest).bind _) = _
          rw [unitValue?_hexPair (by omega)]
          cases pieces? rest <;> rfl
        · intro more
          rw [characters?_unit (by omega), Char.ofNat_toNat]
      · refine ⟨.char c, ?_, fun more => rfl⟩
        intro rest
        rw [if_neg hcontrol, List.singleton_append, pieces?]
        · rw [if_neg hcontrol]
        -- What is left says that the character is none of those that are escaped.
        all_goals simp_all
  all_goals
    refine ⟨.char _, ?_, fun more => rfl⟩
    intro rest
    show (pieces? rest).bind _ = _
    cases pieces? rest <;> rfl

/-- The text of a string is taken apart into pieces that stand for its characters. -/
theorem exists_pieces (s rest : List Char) : ∃ pieces,
    pieces? (s.flatMap charText ++ '"' :: rest) = some (pieces, rest) ∧
      characters? pieces = some s := by
  induction s with
  | nil => exact ⟨[], rfl, rfl⟩
  | cons c s ih =>
      obtain ⟨pieces, hpieces, hcharacters⟩ := ih
      obtain ⟨piece, hread, hstands⟩ := exists_piece c
      refine ⟨piece :: pieces, ?_, ?_⟩
      · rw [List.flatMap_cons, List.append_assoc, hread, hpieces]
        rfl
      · rw [hstands, hcharacters]
        rfl

/-- A string is read back from its text. -/
theorem scanString?_text (s : String) (rest : List Char) :
    scanString? (s.toList.flatMap charText ++ '"' :: rest) = some (.string (some s), rest) := by
  obtain ⟨pieces, hpieces, hcharacters⟩ := exists_pieces s.toList rest
  rw [scanString?, hpieces]
  simp only [Option.map_some, hcharacters, String.ofList_toList]

/-! ### Tokens -/

/-- Whether the token is a number. -/
def Token.isNumber : Token → Bool
  | .number _ => true
  | _ => false

/-- Whether the token is a double. -/
def Token.isDouble : Token → Bool
  | .number (some (.float _)) => true
  | _ => false

/-- A text that starts with a digit starts with a number. -/
theorem scanToken?_digit {c : Char} (hc : c.isDigit = true) (rest : List Char) :
    scanToken? (c :: rest) = scanUnsigned? false (c :: rest) := by
  rw [scanToken?]
  -- No other token starts with a digit.
  all_goals
    intro more heq
    obtain ⟨rfl, -⟩ := List.cons.inj heq
    revert hc
    decide

/-- The text of a number after its sign starts with a digit. -/
theorem Literal.WellFormed.exists_digit {l : Literal} (hl : l.WellFormed) :
    ∃ c more, l.unsignedText = c :: more ∧ c.isDigit = true := by
  obtain ⟨hne, hdigits⟩ := hl.whole
  obtain ⟨c, more, hwhole⟩ := List.exists_cons_of_ne_nil hne
  refine ⟨c, more ++ (fractionText l.fraction ++ powerText l.exponent), ?_, ?_⟩
  · rw [Literal.unsignedText, hwhole]
    rfl
  · exact hdigits c (by simp [hwhole])

/-- The token of a literal is scanned from its text. -/
theorem scanToken?_literal {l : Literal} (hl : l.WellFormed) {rest : List Char}
    (hrest : EndsNumber rest) :
    scanToken? (l.text ++ rest) = some (.number l.number?, rest) := by
  have hscan : scanUnsigned? l.negative (l.unsignedText ++ rest)
      = some (.number l.number?, rest) := by
    rw [scanUnsigned?, scanLiteral?_text hl hrest]
    rfl
  rw [Literal.text]
  cases hneg : l.negative
  · -- Without a sign the first digit decides what is scanned.
    rw [hneg] at hscan
    obtain ⟨c, more, htext, hc⟩ := hl.exists_digit
    rw [if_neg (by decide), ← hscan, htext]
    exact scanToken?_digit hc _
  · rw [hneg] at hscan
    exact hscan

/-- Literals with one text are one literal. -/
theorem Literal.text_injective {l l' : Literal} (hl : l.WellFormed) (hl' : l'.WellFormed)
    (h : l.text = l'.text) : l = l' := by
  have hends : EndsNumber [] := by simp [EndsNumber]
  have hscan := scanLiteral?_text hl hends
  have hscan' := scanLiteral?_text hl' hends
  obtain ⟨c, more, htext, hc⟩ := hl.exists_digit
  obtain ⟨c', more', htext', hc'⟩ := hl'.exists_digit
  have hminus : '-'.isDigit = false := by decide
  -- A sign is no digit, so both have one or none has.
  cases hneg : l.negative <;> cases hneg' : l'.negative <;>
    simp only [Literal.text, hneg, hneg', Bool.false_eq_true, if_true, if_false] at h
  · rw [hneg, h] at hscan
    rw [hneg'] at hscan'
    simpa using hscan.symm.trans hscan'
  · rw [htext] at h
    rw [(List.cons.inj h).1, hminus] at hc
    cases hc
  · rw [htext'] at h
    rw [← (List.cons.inj h).1, hminus] at hc'
    cases hc'
  · rw [hneg, (List.cons.inj h).2] at hscan
    rw [hneg'] at hscan'
    simpa using hscan.symm.trans hscan'

/-- The literal of the text of a number that has no value. -/
def Literal.tooLarge : Literal :=
  ⟨false, ['1'], none, some (false, ['9', '9', '9'])⟩

/-- The literal has the form of a number. -/
theorem Literal.wellFormed_tooLarge : Literal.tooLarge.WellFormed :=
  ⟨⟨by simp [tooLarge], by simp [tooLarge]⟩, by simp [tooLarge], by simp [tooLarge],
    by simp [tooLarge, AreDigits]⟩

/-- No power of ten as large as this is a double. -/
theorem Literal.number?_tooLarge : Literal.tooLarge.number? = none := by
  have hinteger : tooLarge.integer? = none := rfl
  have hone : Double.nearest? false 1 1
      = some ⟨false, 4503599627370496, 1022, by decide⟩ := by decide +kernel
  have hscaled : Double.scaled? ⟨false, 4503599627370496, 1022, by decide⟩ 999 = none := by
    rw [Double.scaled?]
    rfl
  have hdouble : tooLarge.double?
      = (Double.nearest? false 1 1).bind fun x => (x.scaled? 999).map Number.float := rfl
  rw [Literal.number?, hinteger, hdouble, hone, Option.bind_some, hscaled]
  rfl

/-- The text of a number token is the text of a literal that tells it. -/
theorem Token.exists_literal (value : Option Number) :
    ∃ l : Literal, l.text = (Token.number value).text ∧ l.WellFormed ∧ l.nearest? = value := by
  cases value with
  | none => exact ⟨Literal.tooLarge, rfl, Literal.wellFormed_tooLarge, rfl⟩
  | some n => exact n.exists_literal

/-! ### What is read from the text of a token -/

/-- The number that is read from the text of a number. -/
def Number.reread (n : Number) : Option Number :=
  match scanToken? n.text with
  | some (.number value, _) => value
  | _ => none

/-- A number is read from its text, in front of whatever does not go on with it. -/
theorem scanToken?_number (n : Number) {rest : List Char} (hrest : EndsNumber rest) :
    scanToken? (n.text ++ rest) = some (.number n.reread, rest) := by
  obtain ⟨l, htext, hl, -⟩ := n.exists_literal
  have hreread : n.reread = l.number? := by
    have hscan : scanToken? (l.text ++ []) = _ := scanToken?_literal hl (by simp [EndsNumber])
    rw [List.append_nil, htext] at hscan
    rw [Number.reread, hscan]
  rw [hreread, ← htext, scanToken?_literal hl hrest]

/-- An integer is read back from its text. -/
theorem Number.reread_int (value : Int) (range : IsExact value) :
    (Number.int value range).reread = some (.int value range) := by
  obtain ⟨l, htext, hl, hnearest⟩ := (Number.int value range).exists_literal
  have hscan : scanToken? (l.text ++ []) = _ := scanToken?_literal hl (by simp [EndsNumber])
  rw [List.append_nil, htext] at hscan
  -- Only an exact literal tells an integer, and an exact literal is read exactly.
  have hinteger : l.integer? = some (.int value range) := by
    rw [Literal.nearest?] at hnearest
    cases hexact : l.integer? with
    | some n =>
        rw [hexact] at hnearest
        exact hnearest
    | none =>
        rw [hexact] at hnearest
        obtain ⟨x, -, hx⟩ := Option.map_eq_some_iff.1 hnearest
        cases hx
  rw [Number.reread, hscan]
  show l.number? = _
  rw [Literal.number?, hinteger]
  rfl

/-- A double need not be: this one is written `9.107919828850397` and read as the one below it. -/
example : (Number.float ⟨false, 5127303043416375, 1025, by decide⟩).reread
    = some (.float ⟨false, 5127303043416374, 1025, by decide⟩) := by
  decide +kernel

/-- The token that is read from the text of a token. -/
def Token.reread : Token → Token
  | .number (some n) => .number n.reread
  | t => t

/-- A token stays a number, or none, when it is read again. -/
@[simp] theorem Token.isNumber_reread (t : Token) : t.reread.isNumber = t.isNumber := by
  unfold reread
  split <;> rfl

/-- What is scanned from the text of a token, in front of a rest that does not go on with
the same number. -/
theorem scanToken?_text (t : Token) {rest : List Char}
    (hrest : t.isNumber = true → EndsNumber rest) :
    scanToken? (t.text ++ rest) = some (t.reread, rest) := by
  cases t with
  | bool value => cases value <;> rfl
  | number value =>
      cases value with
      | none =>
          have hscan := scanToken?_literal Literal.wellFormed_tooLarge (hrest rfl)
          rw [Literal.number?_tooLarge] at hscan
          exact hscan
      | some n => exact scanToken?_number n (hrest rfl)
  | string value =>
      cases value with
      | none => rfl
      | some s =>
          show scanString? (s.toList.flatMap charText ++ ['"'] ++ rest) = _
          rw [List.append_assoc]
          exact scanString?_text s rest
  | _ => rfl

/-- Tokens with one text are one token. -/
theorem Token.text_injective {t t' : Token} (h : t.text = t'.text) : t = t' := by
  have hends : EndsNumber [] := by simp [EndsNumber]
  have hreread : t.reread = t'.reread := by
    have hscan : scanToken? (t.text ++ []) = _ := scanToken?_text t fun _ => hends
    have hscan' : scanToken? (t'.text ++ []) = _ := scanToken?_text t' fun _ => hends
    rw [h, hscan'] at hscan
    exact (Prod.mk.inj (Option.some.inj hscan)).1.symm
  have hkind : t.isNumber = t'.isNumber := by
    rw [← isNumber_reread t, hreread, isNumber_reread]
  cases hnumber : t.isNumber with
  | false =>
      have hself : ∀ s : Token, s.isNumber = false → s.reread = s := by
        intro s hs
        cases s <;> first | rfl | cases hs
      rw [← hself t hnumber, hreread, hself t' (hkind ▸ hnumber)]
  | true =>
      -- Two numbers with one text have one literal, which tells them both.
      have hliteral : ∀ s : Token, s.isNumber = true → ∃ value, s = .number value := by
        intro s hs
        cases s <;> first | exact ⟨_, rfl⟩ | cases hs
      obtain ⟨value, rfl⟩ := hliteral t hnumber
      obtain ⟨value', rfl⟩ := hliteral t' (hkind ▸ hnumber)
      obtain ⟨l, htext, hl, hvalue⟩ := Token.exists_literal value
      obtain ⟨l', htext', hl', hvalue'⟩ := Token.exists_literal value'
      obtain rfl := Literal.text_injective hl hl' (by rw [htext, htext', h])
      rw [← hvalue, ← hvalue']

end DeclaredApi.Json
