/-!
# `DeclaredApi.Text.Utf8`: reading bytes as text

Bytes are read as UTF-8. Every longest start of a character that does not go on as one is
read as the replacement character U+FFFD, and reading goes on with the byte that broke it.
The ranges of the second byte keep overlong forms, surrogates and code points past U+10FFFF
out. A byte order mark before the text is dropped.
-/

set_option autoImplicit false

namespace DeclaredApi.Text

/-- The character for bytes that are none. -/
def replacement : Char := '\uFFFD'

/-- A character of which some bytes have been read. -/
structure Unfinished where
  /-- How many bytes are to come. -/
  needed : Nat
  /-- The range of the next one. -/
  lower : Nat
  upper : Nat
  /-- The bits so far. -/
  code : Nat

/-- What a byte at the start of a character gives: text, or a character to go on with. -/
def firstByte (b : Nat) : List Char × Option Unfinished :=
  if b < 0x80 then ([Char.ofNat b], none)
  else if 0xC2 ≤ b ∧ b ≤ 0xDF then ([], some ⟨1, 0x80, 0xBF, b - 0xC0⟩)
  else if b = 0xE0 then ([], some ⟨2, 0xA0, 0xBF, 0⟩)
  else if b = 0xED then ([], some ⟨2, 0x80, 0x9F, 0xD⟩)
  else if 0xE1 ≤ b ∧ b ≤ 0xEF then ([], some ⟨2, 0x80, 0xBF, b - 0xE0⟩)
  else if b = 0xF0 then ([], some ⟨3, 0x90, 0xBF, 0⟩)
  else if 0xF1 ≤ b ∧ b ≤ 0xF3 then ([], some ⟨3, 0x80, 0xBF, b - 0xF0⟩)
  else if b = 0xF4 then ([], some ⟨3, 0x80, 0x8F, 4⟩)
  else ([replacement], none)

/-- What one more byte gives. -/
def nextByte (b : Nat) : Option Unfinished → List Char × Option Unfinished
  | none => firstByte b
  | some u =>
    if u.lower ≤ b ∧ b ≤ u.upper then
      let code := u.code * 64 + (b - 0x80)
      if u.needed = 1 then ([Char.ofNat code], none)
      else ([], some ⟨u.needed - 1, 0x80, 0xBF, code⟩)
    else
      let (text, rest) := firstByte b
      (replacement :: text, rest)

/-- The characters of bytes that go on with an unfinished character. -/
def charsFrom (unfinished : Option Unfinished) : List UInt8 → List Char
  | [] => if unfinished.isSome then [replacement] else []
  | b :: rest =>
    let (text, unfinished) := nextByte b.toNat unfinished
    text ++ charsFrom unfinished rest

/-- The text of bytes. -/
def decodeUtf8 (bytes : List UInt8) : String :=
  let bytes :=
    match bytes with
    | 0xEF :: 0xBB :: 0xBF :: rest => rest
    | bytes => bytes
  String.ofList (charsFrom none bytes)

end DeclaredApi.Text
