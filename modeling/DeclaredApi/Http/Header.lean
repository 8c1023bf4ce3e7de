import DeclaredApi.Text.Blank

/-!
# `DeclaredApi.Http.Header`: the fields before the body of a message

The name of a header is a token: letters, digits and some marks. Its value is any text
without control characters but tabs; it arrives without blanks at its ends. A client reads
only values of visible ASCII, blanks and tabs.
-/

set_option autoImplicit false

namespace DeclaredApi.Http

/-- A header, as its name and its value. -/
abbrev Header := String × String

/-- A character of the name of a header. -/
def isTokenChar (c : Char) : Bool :=
  c.isAlphanum || "!#$%&'*+-.^_\x60|~".contains c

/-- Whether a text can be the name of a header. -/
def isHeaderName (s : String) : Bool :=
  ¬ s.isEmpty && s.toList.all isTokenChar

/-- Whether a text can be the value of a header. -/
def isHeaderValue (s : String) : Bool :=
  s.toList.all fun c => c == '\t' || (0x20 ≤ c.toNat && c.toNat != 0x7F)

/-- Whether the value of a header is read when it arrives. -/
def isReadable (value : String) : Bool :=
  value.toList.all fun c => c == '\t' || (0x20 ≤ c.toNat && c.toNat < 0x7F)

/-- A blank or tab. -/
def isSpace (c : Char) : Bool :=
  c == ' ' || c == '\t'

namespace Header

/-- A header as it arrives: its name in small letters, its value without blanks at the
ends. -/
def arriving (header : Header) : Header :=
  let value := header.2.toList.dropWhile isSpace
  (Text.foldCase header.1, String.ofList (value.reverse.dropWhile isSpace).reverse)

/-- Whether a header can be sent. -/
def isSendable (header : Header) : Bool :=
  isHeaderName header.1 && isHeaderValue header.2

/-- The order of headers by name, those of one name by value. -/
def isAtMost (a b : Header) : Bool :=
  a.1 < b.1 || (a.1 = b.1 && ¬ b.2 < a.2)

end Header

/-- The headers with one more, unless they have one of its name. -/
def withDefault (default : Header) (headers : List Header) : List Header :=
  if headers.any (·.1 = default.1) then headers else headers ++ [default]

end DeclaredApi.Http
