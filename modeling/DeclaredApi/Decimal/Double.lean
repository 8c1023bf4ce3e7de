/-!
# `DeclaredApi.Decimal.Double`: finite binary64 numbers

Only finite values occur, so a `Double` is a sign, a mantissa and a power of two with one form
for each value (`canonical`), in plain naturals: no statement about it needs an axiom about
machine arithmetic. `nearest?` rounds a quotient, ties going to the even mantissa. All
arithmetic is an exact quotient that is rounded once: `mul?`, `div?`, and `ofDecimal?`, which
takes a decimal `digits · 10 ^ exponent`. Each of them answers `none` past the largest finite
value. A JSON text is not read with `ofDecimal?`, but in more steps (`Double.scaled?`).
-/

set_option autoImplicit false

namespace DeclaredApi

/-- The finite binary64 value `± mantissa · 2 ^ scale / 2 ^ 1074`. -/
structure Double where
  /-- The sign. Zero has two signs. -/
  negative : Bool
  /-- At most 53 bits. -/
  mantissa : Nat
  /-- The power of two, counted from the least one. -/
  scale : Nat
  /-- The mantissa is less than `2^53` and has its leading bit, except at the least scale. -/
  canonical : mantissa < 9007199254740992 ∧ scale ≤ 2045 ∧
    (4503599627370496 ≤ mantissa ∨ scale = 0)
deriving DecidableEq, Repr

namespace Double

/-- Zero, with either sign. -/
def zero (negative : Bool) : Double :=
  ⟨negative, 0, 0, by decide⟩

/-- Equality of numbers: the two zeros are equal, all else is equal only to itself. -/
def sameNumber (a b : Double) : Bool :=
  a = b || (a.mantissa == 0 && b.mantissa == 0)

/-- The natural nearest to `num / den`; a tie goes to the even one. -/
def roundHalfEven (num den : Nat) : Nat :=
  let quotient := num / den
  let rest := num % den
  if 2 * rest < den then quotient
  else if den < 2 * rest then quotient + 1
  else quotient + quotient % 2

/-- The double nearest to `num / den`; a tie goes to the even mantissa. -/
def nearest? (negative : Bool) (num den : Nat) : Option Double :=
  let scaled := num <<< 1074
  let scale := (scaled / den).log2 + 1 - 53
  let rounded := roundHalfEven scaled (den <<< scale)
  let (mantissa, scale) :=
    if rounded < 9007199254740992 then (rounded, scale) else (4503599627370496, scale + 1)
  if h : mantissa < 9007199254740992 ∧ scale ≤ 2045 ∧
      (4503599627370496 ≤ mantissa ∨ scale = 0) then
    some ⟨negative, mantissa, scale, h⟩
  else none

/-- The absolute value as a quotient of naturals. -/
def quotient (x : Double) : Nat × Nat :=
  (x.mantissa <<< x.scale, 1 <<< 1074)

/-- The product of two doubles, rounded. -/
def mul? (x y : Double) : Option Double :=
  nearest? (x.negative != y.negative) (x.quotient.1 * y.quotient.1)
    (x.quotient.2 * y.quotient.2)

/-- The quotient of two doubles, of which the second is not zero, rounded. -/
def div? (x y : Double) : Option Double :=
  nearest? (x.negative != y.negative) (x.quotient.1 * y.quotient.2)
    (x.quotient.2 * y.quotient.1)

/-- The double nearest to `digits · 10 ^ exponent`. Exponents far outside the range of
binary64 are decided by the position of the first digit, so no huge power is formed. -/
def ofDecimal? (negative : Bool) (digits : Nat) (exponent : Int) : Option Double :=
  let point := exponent + (Nat.toDigits 10 digits).length
  if digits = 0 ∨ point < -400 then some (zero negative)
  else if 400 < point then none
  else if 0 ≤ exponent then nearest? negative (digits * Nat.pow 10 exponent.toNat) 1
  else nearest? negative digits (Nat.pow 10 (-exponent).toNat)

end Double
end DeclaredApi
