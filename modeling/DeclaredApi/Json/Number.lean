import DeclaredApi.Decimal.Scaling
import DeclaredApi.Decimal.Shortest

/-!
# `DeclaredApi.Json.Number`: numbers of a JSON text

An integer literal in `-2^63 … 2^64 - 1` is an exact integer. Every other literal, one with
a fraction or an exponent, `-0`, or an integer outside that range, is a double. So `1` and
`1.0` are different numbers, and a literal past the largest double is none.

A double is read by best effort: of its digits as many are taken as fit into 64 bits, and the
number that they make is scaled by a power of ten (`Double.scaled?`), with a rounding in each
step. It is written exactly: `Number.text` writes an integer in decimal and a double with the
fewest digits that tell it, positionally where its first digit stands at `10 ^ -5 … 10 ^ 15`.
So a double that is written may be read as a neighbour of it.
-/

set_option autoImplicit false

namespace DeclaredApi.Json

/-- The range of exact integers, `-2^63 … 2^64 - 1`. -/
abbrev IsExact (value : Int) : Prop :=
  -9223372036854775808 ≤ value ∧ value < 18446744073709551616

/-- A number of a JSON value. -/
inductive Number where
  /-- An exact integer. -/
  | int (value : Int) (range : IsExact value)
  /-- A double, written with a fraction or an exponent. -/
  | float (value : Double)
deriving DecidableEq, Repr

/-- A number literal, taken apart. -/
structure Literal where
  negative : Bool
  whole : List Char
  fraction : Option (List Char)
  /-- Sign and digits of the exponent; `true` is minus. -/
  exponent : Option (Bool × List Char)
deriving DecidableEq, Repr

/-- The value of decimal digits. -/
def digitsValue (digits : List Char) : Nat :=
  Nat.ofDigitChars 10 digits 0

/-- The exponent of ten a literal names. -/
def Literal.power (l : Literal) : Int :=
  match l.exponent with
  | none => 0
  | some (true, digits) => -(digitsValue digits : Int)
  | some (false, digits) => digitsValue digits

/-- The significand with further digits behind it, up to the first one with which it would not
fit into 64 bits, and the digits from there on. -/
def takeDigits (significand : Nat) : List Char → Nat × List Char
  | [] => (significand, [])
  | c :: rest =>
    let more := significand * 10 + digitsValue [c]
    if more < 18446744073709551616 then takeDigits more rest else (significand, c :: rest)

/-- The digits of a literal that are read, as a natural number, and the power of ten that belongs
to it. A digit before the point that does not fit is a power of ten more, and a digit after it
that does not fit is left out. -/
def Literal.significand (l : Literal) : Nat × Int :=
  let (whole, wholeLeft) := takeDigits 0 l.whole
  let (significand, fractionLeft) := takeDigits whole (l.fraction.getD [])
  (significand,
    wholeLeft.length - (((l.fraction.getD []).length : Int) - fractionLeft.length))

/-- The literal as a double, unless it is too large. An exponent past the integers of 32 bits
decides alone, and a sum of exponents stays within them. -/
def Literal.double? (l : Literal) : Option Number :=
  let (significand, exponent) := l.significand
  if 2147483647 < l.power.natAbs then
    if significand ≠ 0 ∧ 0 < l.power then none else some (.float (.zero l.negative))
  else
    (Double.nearest? l.negative significand 1).bind fun x =>
      (x.scaled? (max (-2147483648) (min 2147483647 (exponent + l.power)))).map Number.float

/-- The exact integer that a literal stands for, if it is one. -/
def Literal.integer? (l : Literal) : Option Number :=
  let value : Int := digitsValue l.whole
  let value := if l.negative then -value else value
  if l.fraction.isNone ∧ l.exponent.isNone ∧ ¬(l.negative ∧ value = 0) then
    if h : IsExact value then some (.int value h) else none
  else none

/-- The number a literal stands for, unless it is too large. -/
def Literal.number? (l : Literal) : Option Number :=
  l.integer? <|> l.double?

namespace Number

/-- A natural number as a number; past the range of integers it is a double. -/
def ofNat (n : Nat) : Number :=
  if h : IsExact n then .int n h
  else .float ((Double.ofDecimal? false n 0).getD (.zero false))

/-- A 64-bit signed integer. -/
def ofInt64 (n : Int64) : Number :=
  .int n.toInt ⟨by have := n.le_toInt; omega, by have := n.toInt_lt; omega⟩

/-- A 64-bit natural number. -/
def ofUInt64 (n : UInt64) : Number :=
  .int n.toNat ⟨by omega, by have := n.toNat_lt; omega⟩

/-- Equality of numbers: an integer never equals a double, and the two zeros are equal. -/
def same : Number → Number → Bool
  | .int a _, .int b _ => a == b
  | .float a, .float b => a.sameNumber b
  | _, _ => false

end Number

/-- How a double is laid out: which exponents of the first digit are written positionally. -/
structure Layout where
  leastPositional : Int
  greatestPositional : Int

/-- Doubles are positional from `10 ^ -5` to `10 ^ 15`, and otherwise have an exponent with
its sign. -/
def layout : Layout := ⟨-5, 15⟩

/-- An exponent with its sign. -/
def exponentText (e : Int) : List Char :=
  (if e < 0 then '-' else '+') :: Nat.toDigits 10 e.natAbs

/-- A decimal with a point, or with an exponent where the layout asks for one. -/
def decimalText (d : Decimal) : List Char :=
  let digits := Nat.toDigits 10 d.digits
  let lead : Int := d.exponent + digits.length - 1
  if lead < layout.leastPositional ∨ layout.greatestPositional < lead then
    match digits with
    | first :: second :: more => first :: '.' :: second :: more ++ 'e' :: exponentText lead
    | _ => digits ++ 'e' :: exponentText lead
  else if 0 ≤ d.exponent then
    digits ++ List.replicate d.exponent.toNat '0' ++ ['.', '0']
  else if 0 ≤ lead then
    digits.take (lead + 1).toNat ++ '.' :: digits.drop (lead + 1).toNat
  else
    ['0', '.'] ++ List.replicate (-lead - 1).toNat '0' ++ digits

/-- The text of a number. -/
def Number.text : Number → List Char
  | .int value _ =>
    if value < 0 then '-' :: Nat.toDigits 10 value.natAbs else Nat.toDigits 10 value.natAbs
  | .float x => if x.negative then '-' :: decimalText x.shortest else decimalText x.shortest

end DeclaredApi.Json
