import DeclaredApi.Decimal.Double

/-!
# `DeclaredApi.Decimal.Shortest`: the fewest digits that tell a double

The decimal text of a double is the one with the fewest digits to which the double is the
nearest, and among those the nearest to it (a tie goes to the even last digit). The search
walks the decimal grids with 1, 2, … 17 digits. On each it tries the value's two neighbours
and takes the first that `Double.ofDecimal?` rounds to it, so that the result tells the double
is seen without an analysis of the search.
-/

set_option autoImplicit false

namespace DeclaredApi

/-- The number `digits · 10 ^ exponent`. -/
structure Decimal where
  digits : Nat
  exponent : Int
deriving DecidableEq, Repr

namespace Decimal

/-- The same number with its trailing zeros moved into the exponent; `fuel` bounds their
number. -/
def dropZeros : Nat → Decimal → Decimal
  | 0, d => d
  | fuel + 1, d =>
    if d.digits ≠ 0 ∧ d.digits % 10 = 0 then dropZeros fuel ⟨d.digits / 10, d.exponent + 1⟩ else d

end Decimal

namespace Double

/-- The exponent of the first decimal digit of a positive `num / den`. -/
def leadingExponent (num den : Nat) : Int :=
  if den ≤ num then (Nat.toDigits 10 (num / den)).length - 1
  else -(Nat.toDigits 10 ((den - 1) / num)).length

/-- The two neighbours of `x` on the grid of multiples of `10 ^ unit`, the nearer one first. -/
def neighbours (x : Double) (unit : Int) : List Nat :=
  let (num, den) := x.quotient
  let (num, den) :=
    if 0 ≤ unit then (num, den * Nat.pow 10 unit.toNat) else (num * Nat.pow 10 (-unit).toNat, den)
  let low := num / den
  let rest := num % den
  if 2 * rest < den ∨ (2 * rest = den ∧ low % 2 = 0) then [low, low + 1] else [low + 1, low]

/-- Whether `x` is the double nearest to the decimal. -/
def isReadBy (x : Double) (d : Decimal) : Bool :=
  ofDecimal? x.negative d.digits d.exponent = some x

/-- The neighbours of `x` on the grids with 1, 2, … 17 digits, without trailing zeros. -/
def candidates (x : Double) : List Decimal :=
  let (num, den) := x.quotient
  let lead := leadingExponent num den
  (List.range 17).flatMap fun (more : Nat) =>
    (x.neighbours (lead - more)).map fun digits => Decimal.dropZeros 18 ⟨digits, lead - more⟩

/-- The decimal with the fewest digits to which `x` is nearest; zero has the digit 0. -/
def shortest (x : Double) : Decimal :=
  if x.mantissa = 0 then ⟨0, 0⟩
  else (x.candidates.find? x.isReadBy).getD ⟨(x.mantissa <<< x.scale) * Nat.pow 5 1074, -1074⟩

end Double
end DeclaredApi
