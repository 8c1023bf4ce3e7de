import DeclaredApi.Text.Percent

/-!
# `DeclaredApi.Http.Target`: what an address asks a server for

What follows the name of the server in an address becomes the target of a request: a path
and perhaps a query. Tabs and line ends are dropped, backslashes are slashes, the steps
`.` and `..` of the path are taken, characters that have no place in an address are percent
encoded, and what follows a `#` is not sent.
-/

set_option autoImplicit false

namespace DeclaredApi.Http

open Text

/-- A character that every part of an address encodes. -/
def isNeverPlain (c : Char) : Bool :=
  c.toNat ≤ 0x20 || 0x7F ≤ c.toNat || c == '"' || c == '<' || c == '>'

/-- A character that a path encodes. -/
def isEncodedInPath (c : Char) : Bool :=
  isNeverPlain c || c == '\x60' || c == '\x7b' || c == '\x7d'

/-- A character that a query encodes. -/
def isEncodedInQuery (c : Char) : Bool :=
  isNeverPlain c || c == '\''

/-- The text with some of its characters percent encoded. -/
def encode (isEncoded : Char → Bool) (text : List Char) : List Char :=
  text.flatMap fun c => if isEncoded c then (String.utf8EncodeChar c).flatMap percentByte else [c]

/-- The address as it counts: without tabs and line ends, and without blanks and controls at
its end. -/
def cleaned (address : List Char) : List Char :=
  let kept := address.filter fun c => c != '\t' && c != '\n' && c != '\r'
  (kept.reverse.dropWhile fun c => c.toNat ≤ 0x20).reverse

/-- A segment with encoded dots written as dots. -/
def plainDots : List Char → List Char
  | '%' :: '2' :: 'e' :: rest => '.' :: plainDots rest
  | '%' :: '2' :: 'E' :: rest => '.' :: plainDots rest
  | c :: rest => c :: plainDots rest
  | [] => []

/-- The segments of a path after its steps are taken, given those so far, the latest first.
A step at the end of the path leaves an empty segment there. -/
def takeSteps (before : List (List Char)) : List (List Char) → List (List Char)
  | [] => before.reverse
  | segment :: rest =>
    if plainDots segment = ['.'] then
      if rest.isEmpty then ([] :: before).reverse else takeSteps before rest
    else if plainDots segment = ['.', '.'] then
      if rest.isEmpty then ([] :: before.tail).reverse else takeSteps before.tail rest
    else takeSteps (segment :: before) rest

/-- The path of a target. -/
def path (text : List Char) : List Char :=
  let slashes := text.map fun c => if c = '\\' then '/' else c
  let segments := takeSteps [] ((slashes.drop 1).splitOn '/')
  segments.flatMap fun segment => '/' :: encode isEncodedInPath segment

/-- The target for what follows the name of the server in an address. -/
def target? (address : List Char) : Option String :=
  let text := (cleaned address).takeWhile (· != '#')
  let query := text.dropWhile (· != '?')
  match text.takeWhile (· != '?') with
  | [] => some (String.ofList ('/' :: encode isEncodedInQuery query))
  | c :: rest =>
    if c = '/' ∨ c = '\\' then
      some (String.ofList (path (c :: rest) ++ encode isEncodedInQuery query))
    else none

end DeclaredApi.Http
