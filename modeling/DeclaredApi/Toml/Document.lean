import DeclaredApi.Toml.Scalar

/-!
# `DeclaredApi.Toml.Document`: reading a TOML document

A document is a sequence of lines: a comment, a header in brackets, or a key with its value.
`read?` applies them to the table of the document in order and answers with its entries, or
with nothing when a line breaks the grammar or changes what an earlier line has settled.
Arrays may run over several lines, tables in braces may not. Values are at most 79
containers deep, and a key has at most 79 parts.
-/

set_option autoImplicit false

namespace DeclaredApi.Toml

/-- The limit of nesting, which is not reached. -/
def depthLimit : Nat := 80

/-! ### Blanks and comments -/

/-- The text after a comment, if it starts with one. -/
def skipComment : List Char → List Char
  | '#' :: rest => rest.dropWhile isLineChar
  | text => text

/-- The text of the next line, after blanks and a comment. -/
def endLine? (text : List Char) : Option (List Char) :=
  match skipComment (skipSpaces text) with
  | [] => some []
  | text => newline? text

/-- The text after blanks, line ends and comments, where a comment must end its line. `fuel`
bounds the lines. -/
def skipLines : Nat → List Char → List Char
  | 0, text => text
  | fuel + 1, text =>
    let text := skipSpaces text
    match newline? (skipComment text) with
    | some rest => skipLines fuel rest
    | none => text

/-! ### Keys -/

/-- The characters of a key without quotes. -/
def isKeyChar (c : Char) : Bool :=
  c.isAlphanum || c == '-' || c == '_'

/-- One part of a key, with the blanks around it. -/
def keyPart? : Reader String := fun text => do
  let (part, rest) ←
    match skipSpaces text with
    | '"' :: rest => basic rest
    | '\'' :: rest => literal rest
    | text =>
      match text.takeWhile isKeyChar with
      | [] => none
      | part => some (part, text.dropWhile isKeyChar)
  return (String.ofList part, skipSpaces rest)

/-- The parts of a key after the first one. `fuel` bounds their number. -/
def moreParts? : Nat → Reader (List String)
  | fuel + 1, '.' :: rest => do
    let (part, rest) ← keyPart? rest
    let (parts, rest) ← moreParts? fuel rest
    return (part :: parts, rest)
  | _, text => some ([], text)

/-- A key, as its path and its last part. -/
def key? : Reader (List String × String) := fun text => do
  let (first, rest) ← keyPart? text
  let (parts, rest) ← moreParts? rest.length rest
  let all := first :: parts
  if all.length < depthLimit then return ((all.dropLast, all.getLast (by simp [all])), rest)
  else none

/-! ### Values -/

/-- The items of an array after its bracket, up to the closing one. A comma may follow the
last item. `fuel` bounds the items. -/
def items? (value? : Reader Value) : Nat → Reader (List Value)
  | 0, _ => none
  | fuel + 1, text =>
    match skipLines text.length text with
    | ']' :: rest => some ([], rest)
    | text => do
      let (item, rest) ← value? text
      match skipLines rest.length rest with
      | ']' :: rest => some ([item], rest)
      | ',' :: rest => do
        let (items, rest) ← items? value? fuel rest
        return (item :: items, rest)
      | _ => none

/-- A key, an equals sign and a value. -/
def keyValue? (value? : Reader Value) : Reader ((List String × String) × Value) := fun text => do
  let (key, rest) ← key? text
  let rest ← skip? '=' rest
  let (value, rest) ← value? (skipSpaces rest)
  return ((key, value), rest)

/-- The entries of a table in braces, from its first key on, added to those before. `fuel`
bounds the entries. -/
def braces? (value? : Reader Value) : Nat → Entries → Reader Entries
  | 0, _, _ => none
  | fuel + 1, entries, text => do
    let (((path, key), value), rest) ← keyValue? value? text
    let entries ← assign? path key value .braces entries
    match skipSpaces rest with
    | '}' :: rest => some (entries, rest)
    | ',' :: rest => braces? value? fuel entries rest
    | _ => none

/-- A value that opens fewer than `depth` containers inside each other. -/
def value? : Nat → Reader Value
  | _, 't' :: 'r' :: 'u' :: 'e' :: rest => some (.bool true, rest)
  | _, 'f' :: 'a' :: 'l' :: 's' :: 'e' :: rest => some (.bool false, rest)
  | depth + 2, '[' :: rest => do
    let (items, rest) ← items? (value? (depth + 1)) (rest.length + 1) rest
    return (.array items, rest)
  | depth + 2, '\x7b' :: rest =>
    match skipSpaces rest with
    | '}' :: rest => some (.table .braces [], rest)
    | rest => do
      let (entries, rest) ← braces? (value? (depth + 1)) (rest.length + 1) [] rest
      return (.table .braces entries, rest)
  | _, text => string? text <|> date? text <|> float? text <|> integer? text

/-! ### Lines -/

/-- The document so far, with the path of the table that plain keys go into. -/
structure Draft where
  entries : Entries := []
  path : List String := []

/-- The draft after a header. -/
def Draft.header? (draft : Draft) (change : String → Origin → Entries → Option Entries)
    (key : List String × String) : Option Draft := do
  let entries ← grow? .implied (change key.2) key.1 .header draft.entries
  return { entries, path := key.1 ++ [key.2] }

/-- The draft after a key with its value. -/
def Draft.assign? (draft : Draft) (key : List String × String) (value : Value) :
    Option Draft := do
  let entries ← grow? .implied (Toml.assign? key.1 key.2 value) draft.path .header draft.entries
  return { draft with entries }

/-- The draft after the line that the text starts with, and the text of the next line. -/
def line? (draft : Draft) : Reader Draft
  | '[' :: '[' :: rest => do
    let (key, rest) ← key? rest
    let rest ← skip? ']' (← skip? ']' rest)
    return (← draft.header? addTable key, ← endLine? rest)
  | '[' :: rest => do
    let (key, rest) ← key? rest
    let rest ← skip? ']' rest
    return (← draft.header? openTable key, ← endLine? rest)
  | text => do
    let ((key, value), rest) ← keyValue? (value? depthLimit) text
    return (← draft.assign? key value, ← endLine? rest)

/-- The draft after all lines. `fuel` bounds their number. -/
def lines? : Nat → Draft → List Char → Option Draft
  | 0, draft, text => if text.isEmpty then some draft else none
  | fuel + 1, draft, text =>
    match skipLines text.length text with
    | [] => some draft
    | text =>
      if (skipComment text).isEmpty then some draft
      else do
        let (draft, rest) ← line? draft text
        lines? fuel draft rest

/-- The entries of a TOML document. A byte order mark before it is dropped. -/
def read? (document : String) : Option Entries :=
  let text :=
    match document.toList with
    | '\uFEFF' :: rest => rest
    | text => text
  (lines? (text.length + 1) {} text).map (·.entries)

end DeclaredApi.Toml
