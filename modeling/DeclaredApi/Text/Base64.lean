/-!
# `DeclaredApi.Text.Base64`: Base64 with padding

Three bytes become four characters of the alphabet `A–Z a–z 0–9 + /`. A last group of one or
two bytes is filled with `=`.
-/

set_option autoImplicit false

namespace DeclaredApi.Text

/-- The character for six bits. -/
def base64Digit (n : Nat) : Char :=
  if n < 26 then Char.ofNat ('A'.toNat + n)
  else if n < 52 then Char.ofNat ('a'.toNat + (n - 26))
  else if n < 62 then Char.ofNat ('0'.toNat + (n - 52))
  else if n = 62 then '+'
  else '/'

/-- The characters for bytes. -/
def base64Chars : List UInt8 → List Char
  | [] => []
  | [a] => [base64Digit (a.toNat / 4), base64Digit (a.toNat % 4 * 16), '=', '=']
  | [a, b] =>
    [base64Digit (a.toNat / 4), base64Digit (a.toNat % 4 * 16 + b.toNat / 16),
      base64Digit (b.toNat % 16 * 4), '=']
  | a :: b :: c :: rest =>
    base64Digit (a.toNat / 4) :: base64Digit (a.toNat % 4 * 16 + b.toNat / 16) ::
      base64Digit (b.toNat % 16 * 4 + c.toNat / 64) :: base64Digit (c.toNat % 64) ::
      base64Chars rest

/-- The Base64 text of the UTF-8 bytes of a string. -/
def base64Encode (s : String) : String :=
  String.ofList (base64Chars s.toUTF8.toList)

end DeclaredApi.Text
