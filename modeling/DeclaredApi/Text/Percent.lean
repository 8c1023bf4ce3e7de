/-!
# `DeclaredApi.Text.Percent`: percent encoding

ASCII letters, digits and `-` `.` `_` `~` stand for themselves. Every other character is
written as its UTF-8 bytes, each a percent sign with two capital hexadecimal digits, so an
encoded text holds no character that has a meaning in an address.
-/

set_option autoImplicit false

namespace DeclaredApi.Text

/-- A character that percent encoding leaves as it is. -/
def isUnreserved (c : Char) : Bool :=
  c.isAlphanum || c == '-' || c == '.' || c == '_' || c == '~'

/-- The capital hexadecimal digit of a number below sixteen. -/
def hexCapital (n : Nat) : Char :=
  (Nat.digitChar n).toUpper

/-- A byte as a percent sign and two digits. -/
def percentByte (b : UInt8) : List Char :=
  ['%', hexCapital (b.toNat / 16), hexCapital (b.toNat % 16)]

/-- A character, encoded. -/
def percentChar (c : Char) : List Char :=
  if isUnreserved c then [c] else (String.utf8EncodeChar c).flatMap percentByte

/-- A text, encoded. -/
def percentEncode (s : String) : String :=
  String.ofList (s.toList.flatMap percentChar)

end DeclaredApi.Text
