import DeclaredApi.Json.Token
import DeclaredApi.Text.Percent
import Mathlib.Data.List.Basic

/-!
# `DeclaredApi.Proofs.Text.Percent`: encoded texts and what they stand for

`percentDecode?` reads an encoded text: a percent sign with two hexadecimal digits is a byte, any
other character is its own bytes, and the bytes are read as UTF-8. It knows nothing of which
characters an encoder leaves as they are.

* `percentDecode?_percentEncode`: every text is read back from its encoded form, so two texts have
  different forms (`percentEncode_injective`).
* `percentText_percentEncode`: the encoded form is made of unreserved characters and encoded bytes,
  and of nothing else. So no character that separates the parts of an address is in it
  (`PercentText.not_mem`).
-/

set_option autoImplicit false

namespace DeclaredApi.Text

/-! ### Reading encoded texts -/

/-- The byte of two hexadecimal digits. -/
def byteValue? (high low : Char) : Option UInt8 := do
  let high ← Json.hexValue? high
  let low ← Json.hexValue? low
  return UInt8.ofNat (high * 16 + low)

/-- The bytes of a text in which bytes may be encoded. A percent sign that no two digits follow
stands for itself. -/
def percentBytes : List Char → List UInt8
  | '%' :: high :: low :: rest =>
    match byteValue? high low with
    | some byte => byte :: percentBytes rest
    | none => String.utf8EncodeChar '%' ++ percentBytes (high :: low :: rest)
  | c :: rest => String.utf8EncodeChar c ++ percentBytes rest
  | [] => []

/-- The text that an encoded text stands for, if its bytes are one. -/
def percentDecode? (s : String) : Option String :=
  String.fromUTF8? (percentBytes s.toList).toByteArray

/-- A character other than a percent sign stands for itself. -/
theorem percentBytes_cons_of_ne {c : Char} (hc : c ≠ '%') (rest : List Char) :
    percentBytes (c :: rest) = String.utf8EncodeChar c ++ percentBytes rest := by
  rw [percentBytes]
  rintro _ _ _ heq -
  exact hc heq

/-- The value of a capital digit is the number it was made of. -/
theorem hexValue?_hexCapital {n : Nat} (hn : n < 16) : Json.hexValue? (hexCapital n) = some n := by
  have hall : ∀ m < 16, Json.hexValue? (hexCapital m) = some m := by decide
  exact hall n hn

/-- An encoded byte is read as that byte. -/
theorem percentBytes_percentByte (b : UInt8) (rest : List Char) :
    percentBytes (percentByte b ++ rest) = b :: percentBytes rest := by
  have hb : b.toNat < 256 := b.toNat_lt
  have hbyte : byteValue? (hexCapital (b.toNat / 16)) (hexCapital (b.toNat % 16)) = some b := by
    unfold byteValue?
    rw [hexValue?_hexCapital (by omega), hexValue?_hexCapital (by omega)]
    show some (UInt8.ofNat (b.toNat / 16 * 16 + b.toNat % 16)) = some b
    rw [show b.toNat / 16 * 16 + b.toNat % 16 = b.toNat by omega, UInt8.ofNat_toNat]
  show percentBytes ('%' :: hexCapital (b.toNat / 16) :: hexCapital (b.toNat % 16) :: rest) = _
  rw [percentBytes, hbyte]

/-- A percent sign with two digits is a byte, whatever follows. -/
theorem exists_percentBytes_byte {high low : Char} (hhigh : (Json.hexValue? high).isSome = true)
    (hlow : (Json.hexValue? low).isSome = true) :
    ∃ byte, ∀ rest, percentBytes ('%' :: high :: low :: rest) = byte :: percentBytes rest := by
  obtain ⟨n, hn⟩ := Option.isSome_iff_exists.mp hhigh
  obtain ⟨m, hm⟩ := Option.isSome_iff_exists.mp hlow
  have hbyte : byteValue? high low = some (UInt8.ofNat (n * 16 + m)) := by
    rw [byteValue?, hn, hm]
    rfl
  exact ⟨_, fun rest => by rw [percentBytes, hbyte]⟩

/-- Encoded bytes are decoded one by one. -/
theorem percentBytes_flatMap_percentByte (bytes : List UInt8) (rest : List Char) :
    percentBytes (bytes.flatMap percentByte ++ rest) = bytes ++ percentBytes rest := by
  induction bytes with
  | nil => rfl
  | cons b bytes ih =>
      rw [List.flatMap_cons, List.append_assoc, percentBytes_percentByte, ih]
      rfl

/-- A percent sign is never left as it is. -/
theorem ne_percent_of_isUnreserved {c : Char} (hc : isUnreserved c = true) : c ≠ '%' := by
  rintro rfl
  revert hc
  decide

/-- A character has the same bytes before and after encoding. -/
theorem percentBytes_percentChar (c : Char) (rest : List Char) :
    percentBytes (percentChar c ++ rest) = String.utf8EncodeChar c ++ percentBytes rest := by
  unfold percentChar
  split
  · next hc => exact percentBytes_cons_of_ne (ne_percent_of_isUnreserved hc) rest
  · exact percentBytes_flatMap_percentByte _ rest

/-- Encoded characters are decoded to their bytes in UTF-8. -/
theorem percentBytes_flatMap_percentChar (chars : List Char) :
    percentBytes (chars.flatMap percentChar) = chars.flatMap String.utf8EncodeChar := by
  induction chars with
  | nil => rfl
  | cons c chars ih => rw [List.flatMap_cons, percentBytes_percentChar, ih, List.flatMap_cons]

/-- Every text is read back from its encoded form. -/
theorem percentDecode?_percentEncode (s : String) : percentDecode? (percentEncode s) = some s := by
  have hbytes : (percentBytes (percentEncode s).toList).toByteArray = s.toByteArray := by
    rw [percentEncode, String.toList_ofList, percentBytes_flatMap_percentChar]
    conv_rhs => rw [← String.ofList_toList (s := s), String.toByteArray_ofList]
    rfl
  rw [percentDecode?, hbytes, String.fromUTF8?, dif_pos s.isValidUTF8]
  rfl

/-- Different texts have different encoded forms. -/
theorem percentEncode_injective : Function.Injective percentEncode := by
  intro s t h
  have hread := percentDecode?_percentEncode s
  rw [h, percentDecode?_percentEncode] at hread
  exact (Option.some.inj hread).symm

/-! ### What an encoded text is made of -/

/-- A text of unreserved characters and of bytes, each a percent sign with two hexadecimal
digits. -/
inductive PercentText : List Char → Prop where
  | nil : PercentText []
  | plain {c : Char} {rest : List Char} (hc : isUnreserved c = true) (hrest : PercentText rest) :
    PercentText (c :: rest)
  | byte {high low : Char} {rest : List Char} (hhigh : (Json.hexValue? high).isSome = true)
    (hlow : (Json.hexValue? low).isSome = true) (hrest : PercentText rest) :
    PercentText ('%' :: high :: low :: rest)

/-- Encoded texts that follow each other are encoded text. -/
theorem PercentText.append {chars rest : List Char} (h : PercentText chars)
    (hrest : PercentText rest) : PercentText (chars ++ rest) := by
  induction h with
  | nil => exact hrest
  | plain hc _ ih => exact .plain hc ih
  | byte hhigh hlow _ ih => exact .byte hhigh hlow ih

/-- A hexadecimal digit is an unreserved character. -/
theorem isUnreserved_of_hexValue? {c : Char} (h : (Json.hexValue? c).isSome = true) :
    isUnreserved c = true := by
  have halphanum : c.isAlphanum = true := by
    unfold Json.hexValue? at h
    show (decide ('A'.val ≤ c.val ∧ c.val ≤ 'Z'.val) ||
      (decide ('a'.val ≤ c.val) && decide (c.val ≤ 'z'.val)) ||
      (decide ('0'.val ≤ c.val) && decide (c.val ≤ '9'.val))) = true
    simp only [Bool.or_eq_true, Bool.and_eq_true, decide_eq_true_eq]
    simp only [Char.le_def] at h
    split_ifs at h with hdigit hsmall hcapital
    · exact Or.inr hdigit
    · refine Or.inl (Or.inr ⟨hsmall.1, UInt32.le_trans hsmall.2 (by decide)⟩)
    · refine Or.inl (Or.inl ⟨hcapital.1, UInt32.le_trans hcapital.2 (by decide)⟩)
    · cases h
  simp [isUnreserved, halphanum]

/-- Every character of such a text is unreserved or a percent sign. -/
theorem PercentText.of_mem {chars : List Char} (h : PercentText chars) {c : Char}
    (hc : c ∈ chars) : isUnreserved c = true ∨ c = '%' := by
  induction h with
  | nil => cases hc
  | plain hplain _ ih =>
      rcases List.mem_cons.mp hc with rfl | hc
      · exact Or.inl hplain
      · exact ih hc
  | byte hhigh hlow _ ih =>
      simp only [List.mem_cons] at hc
      rcases hc with rfl | rfl | rfl | hc
      · exact Or.inr rfl
      · exact Or.inl (isUnreserved_of_hexValue? hhigh)
      · exact Or.inl (isUnreserved_of_hexValue? hlow)
      · exact ih hc

/-- Such a text has no other character in it. -/
theorem PercentText.not_mem {chars : List Char} (h : PercentText chars) {c : Char}
    (hreserved : isUnreserved c = false) (hpercent : c ≠ '%') : c ∉ chars := by
  intro hmem
  rcases h.of_mem hmem with hunreserved | rfl
  · rw [hreserved] at hunreserved
    cases hunreserved
  · exact hpercent rfl

/-- An encoded byte is a percent sign with two digits. -/
theorem percentText_percentByte (b : UInt8) : PercentText (percentByte b) := by
  have hb : b.toNat < 256 := b.toNat_lt
  refine .byte ?_ ?_ .nil
  · rw [hexValue?_hexCapital (by omega)]
    rfl
  · rw [hexValue?_hexCapital (by omega)]
    rfl

/-- What is made of such texts, one after the other, is such a text. -/
theorem percentText_flatMap {α : Type} {f : α → List Char} (hf : ∀ a, PercentText (f a))
    (items : List α) : PercentText (items.flatMap f) := by
  induction items with
  | nil => exact .nil
  | cons a items ih => exact (hf a).append ih

/-- An encoded text is made of unreserved characters and encoded bytes. -/
theorem percentText_percentEncode (s : String) : PercentText (percentEncode s).toList := by
  rw [percentEncode, String.toList_ofList]
  refine percentText_flatMap (fun c => ?_) _
  unfold percentChar
  split
  · next hc => exact .plain hc .nil
  · exact percentText_flatMap percentText_percentByte _

end DeclaredApi.Text
