import DeclaredApi.Decimal.Double
import DeclaredApi.Json.Token
import DeclaredApi.Toml.Value

/-!
# `DeclaredApi.Toml.Scalar`: strings, numbers and dates of TOML

Each reader takes the text from where a value starts and answers with the value and the rest
of the text. Strings come in four forms: in double quotes with escapes or in single quotes
without, on one line or, with three quotes, over several. Numbers may have underscores
between digits. Integers have 64 bits with a sign, and dates must exist.
-/

set_option autoImplicit false

namespace DeclaredApi.Toml

/-- Reads a value of type `α` at the start of a text. -/
abbrev Reader (α : Type) := List Char → Option (α × List Char)

/-- Blanks inside a line. -/
def isSpace (c : Char) : Bool :=
  c == ' ' || c == '\t'

/-- The characters of a line: all but controls other than the tab. -/
def isLineChar (c : Char) : Bool :=
  c == '\t' || (0x20 ≤ c.toNat && c.toNat != 0x7F)

def skipSpaces (text : List Char) : List Char :=
  text.dropWhile isSpace

/-- The text after the line end it starts with. -/
def newline? : List Char → Option (List Char)
  | '\n' :: rest => some rest
  | '\r' :: '\n' :: rest => some rest
  | _ => none

/-! ### Strings -/

/-- The character of a code written in hexadecimal digits. -/
def codeChar? (digits : List Char) : Option Char := do
  let code ← digits.foldlM (fun n c => return n * 16 + (← Json.hexValue? c)) 0
  if h : code.isValidChar then some (Char.ofNatAux code h) else none

/-- The character that a backslash and `c` stand for. -/
def escaped? : Char → Option Char
  | 'b' => some '\x08'
  | 'f' => some '\x0c'
  | 'n' => some '\n'
  | 'r' => some '\r'
  | 't' => some '\t'
  | '"' => some '"'
  | '\\' => some '\\'
  | _ => none

/-- A text with one more character before it. -/
def prepend (c : Char) (read : Option (List Char × List Char)) : Option (List Char × List Char) :=
  read.map fun (text, rest) => (c :: text, rest)

/-- A string in double quotes, after the opening quote. -/
def basic : Reader (List Char)
  | [] => none
  | '"' :: rest => some ([], rest)
  | '\\' :: 'u' :: a :: b :: c :: d :: rest => do
    prepend (← codeChar? [a, b, c, d]) (basic rest)
  | '\\' :: 'U' :: a :: b :: c :: d :: e :: f :: g :: h :: rest => do
    prepend (← codeChar? [a, b, c, d, e, f, g, h]) (basic rest)
  | '\\' :: c :: rest => do prepend (← escaped? c) (basic rest)
  | c :: rest => if isLineChar c then prepend c (basic rest) else none

/-- A string in single quotes, after the opening quote. -/
def literal : Reader (List Char)
  | [] => none
  | '\'' :: rest => some ([], rest)
  | c :: rest => if isLineChar c then prepend c (literal rest) else none

/-- Up to two quotes at the end of a string in three quotes belong to it. -/
def closing (quote : Char) (text : List Char) : List Char × List Char :=
  let extra := (text.takeWhile (· == quote)).length
  (List.replicate (min extra 2) quote, text.drop (min extra 2))

/-- Whether a backslash before this text drops the line end and all blanks up to the next
character. -/
def continuesLine (text : List Char) : Bool :=
  (newline? (skipSpaces text)).isSome

/-- A string in three double quotes, after the opening quotes. While `skipping`, line ends
and blanks are dropped. -/
def basicLines (skipping : Bool) : Reader (List Char)
  | [] => none
  | '"' :: '"' :: '"' :: rest => some (closing '"' rest)
  | '\r' :: '\n' :: rest =>
    if skipping then basicLines true rest else prepend '\n' (basicLines false rest)
  | '\\' :: 'u' :: a :: b :: c :: d :: rest => do
    prepend (← codeChar? [a, b, c, d]) (basicLines false rest)
  | '\\' :: 'U' :: a :: b :: c :: d :: e :: f :: g :: h :: rest => do
    prepend (← codeChar? [a, b, c, d, e, f, g, h]) (basicLines false rest)
  | '\\' :: c :: rest =>
    if continuesLine (c :: rest) then basicLines true (c :: rest)
    else do prepend (← escaped? c) (basicLines false rest)
  | c :: rest =>
    if skipping && (c == '\n' || isSpace c) then basicLines true rest
    else if c == '\n' || isLineChar c then prepend c (basicLines false rest)
    else none

/-- A string in three single quotes, after the opening quotes. -/
def literalLines : Reader (List Char)
  | [] => none
  | '\'' :: '\'' :: '\'' :: rest => some (closing '\'' rest)
  | '\r' :: '\n' :: rest => prepend '\n' (literalLines rest)
  | c :: rest => if c == '\n' || isLineChar c then prepend c (literalLines rest) else none

/-- The text without the line end it may start with. -/
def dropNewline (text : List Char) : List Char :=
  (newline? text).getD text

/-- A string of any form. -/
def string? : Reader Value := fun text => do
  let (content, rest) ←
    match text with
    | '"' :: '"' :: '"' :: rest => basicLines false (dropNewline rest)
    | '"' :: rest => basic rest
    | '\'' :: '\'' :: '\'' :: rest => literalLines (dropNewline rest)
    | '\'' :: rest => literal rest
    | _ => none
  return (.string (String.ofList content), rest)

/-! ### Numbers -/

/-- The digits after a first one, with single underscores between them, and the rest. -/
def moreDigits (isDigit : Char → Bool) : List Char → List Char × List Char
  | '_' :: c :: rest =>
    if isDigit c then
      let (digits, rest) := moreDigits isDigit rest
      (c :: digits, rest)
    else ([], '_' :: c :: rest)
  | c :: rest =>
    if isDigit c then
      let (digits, rest) := moreDigits isDigit rest
      (c :: digits, rest)
    else ([], c :: rest)
  | [] => ([], [])

/-- Digits with single underscores between them. The answer holds the digits. -/
def digits? (isDigit : Char → Bool) : Reader (List Char)
  | c :: rest =>
    if isDigit c then
      let (digits, rest) := moreDigits isDigit rest
      some (c :: digits, rest)
    else none
  | [] => none

/-- Whether the text starts with a minus, and the text after its sign. -/
def sign : List Char → Bool × List Char
  | '-' :: rest => (true, rest)
  | '+' :: rest => (false, rest)
  | text => (false, text)

/-- The digits of an integer without leading zeros, after its sign. -/
def whole? : Reader (List Char)
  | '0' :: rest => some (['0'], rest)
  | text => digits? Char.isDigit text

/-- An integer in 64 bits. -/
def fit (value : Int) : Option Value :=
  if -9223372036854775808 ≤ value ∧ value < 9223372036854775808 then some (.integer value) else none

/-- The digits of an integer in another base, read as an integer. -/
def inBase? (base : Nat) (isDigit : Char → Bool) : Reader Value := fun text => do
  let (digits, rest) ← digits? isDigit text
  let value := digits.foldl (fun n c => n * base + (Json.hexValue? c).getD 0) 0
  return (← fit value, rest)

/-- An integer in any base. -/
def integer? : Reader Value
  | '0' :: 'x' :: rest => inBase? 16 (fun c => (Json.hexValue? c).isSome) rest
  | '0' :: 'o' :: rest => inBase? 8 (fun c => '0' ≤ c && c ≤ '7') rest
  | '0' :: 'b' :: rest => inBase? 2 (fun c => c == '0' || c == '1') rest
  | text => do
    let (negative, text) := sign text
    let (digits, rest) ← whole? text
    let value : Int := Nat.ofDigitChars 10 digits 0
    return (← fit (if negative then -value else value), rest)

/-- The exponent of a float. -/
def exponent? : Reader Int
  | c :: rest => do
    if c ≠ 'e' ∧ c ≠ 'E' then none
    let (negative, rest) := sign rest
    let (digits, rest) ← digits? Char.isDigit rest
    let value : Int := Nat.ofDigitChars 10 digits 0
    return (if negative then -value else value, rest)
  | [] => none

/-- The digits after the point of a float, and its exponent. One of them must be there. -/
def fractionExponent? : Reader (List Char × Int)
  | '.' :: rest => do
    let (fraction, rest) ← digits? Char.isDigit rest
    let (exponent, rest) := (exponent? rest).getD (0, rest)
    return ((fraction, exponent), rest)
  | text => do
    let (exponent, rest) ← exponent? text
    return (([], exponent), rest)

/-- A float. One that is too large is refused, unless it is negative. -/
def float? : Reader Value := fun text => do
  let (negative, digits) := sign text
  let rest ←
    match digits with
    | 'i' :: 'n' :: 'f' :: rest => some rest
    | 'n' :: 'a' :: 'n' :: rest => some rest
    | digits => do
      let (whole, rest) ← whole? digits
      let ((fraction, exponent), rest) ← fractionExponent? rest
      let value := Double.ofDecimal? false (Nat.ofDigitChars 10 (whole ++ fraction) 0)
        (exponent - fraction.length)
      if negative ∨ value.isSome then some rest else none
  return (.float (text.take (text.length - rest.length)), rest)

/-! ### Dates and times -/

/-- A number of exactly `count` digits, with the text after it. -/
def fixed? (count : Nat) : Reader Nat := fun text =>
  let digits := text.take count
  if digits.length = count ∧ digits.all Char.isDigit then
    some (Nat.ofDigitChars 10 digits 0, text.drop count)
  else none

/-- The text after the character it must start with. -/
def skip? (c : Char) : List Char → Option (List Char)
  | d :: rest => if c = d then some rest else none
  | [] => none

/-- How many days a month has. -/
def daysIn (year month : Nat) : Nat :=
  if month = 2 then
    if year % 4 = 0 ∧ (year % 100 ≠ 0 ∨ year % 400 = 0) then 29 else 28
  else if month = 4 ∨ month = 6 ∨ month = 9 ∨ month = 11 then 30
  else 31

/-- The text after a day that exists. -/
def afterDay? (text : List Char) : Option (List Char) := do
  let (year, text) ← fixed? 4 text
  let (month, text) ← fixed? 2 (← skip? '-' text)
  let (day, text) ← fixed? 2 (← skip? '-' text)
  if 1 ≤ month ∧ month ≤ 12 ∧ 1 ≤ day ∧ day ≤ daysIn year month then some text else none

/-- The text after a time. A minute may have a leap second. -/
def afterTime? (text : List Char) : Option (List Char) := do
  let (hour, text) ← fixed? 2 text
  let (minute, text) ← fixed? 2 (← skip? ':' text)
  let (second, text) ← fixed? 2 (← skip? ':' text)
  if 23 < hour ∨ 59 < minute ∨ 60 < second then none
  match text with
  | '.' :: c :: rest =>
    if c.isDigit then some (rest.dropWhile Char.isDigit) else some text
  | text => some text

/-- The text after the offset of a time, if it has one. -/
def afterOffset (text : List Char) : List Char :=
  match text with
  | 'Z' :: rest => rest
  | 'z' :: rest => rest
  | c :: rest =>
    if c = '+' ∨ c = '-' then
      (do
        let (hour, rest) ← fixed? 2 rest
        let (minute, rest) ← fixed? 2 (← skip? ':' rest)
        if hour ≤ 23 ∧ minute ≤ 59 then some rest else none).getD text
    else text
  | [] => []

/-- The text after a time of a day and its offset, if the text has them. -/
def afterDayTime (text : List Char) : List Char :=
  match text with
  | c :: rest =>
    if c = 'T' ∨ c = 't' ∨ c = ' ' then ((afterTime? rest).map afterOffset).getD text else text
  | [] => []

/-- A date, with or without a time, or a time. -/
def date? : Reader Value := fun text => do
  let rest ← (afterDay? text).map afterDayTime <|> afterTime? text
  return (.date (text.take (text.length - rest.length)), rest)

end DeclaredApi.Toml
