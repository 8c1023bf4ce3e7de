import DeclaredApi.Decimal.Double

/-!
# `DeclaredApi.Decimal.Scaling`: doubles scaled by powers of ten

A quick way to a decimal `digits · 10 ^ exponent` rounds the digits to a double and scales it by
a power of ten, for which there is a table of doubles up to `10 ^ 308`. The digits, the power and
the result are rounded each by itself. So the result can be off by some of the last bits, and it
is not always the double nearest to the decimal.
-/

set_option autoImplicit false

namespace DeclaredApi.Double

/-- The double nearest to a power of ten. -/
def tenPower? (power : Nat) : Option Double :=
  nearest? false (Nat.pow 10 power) 1

/-- The double times `10 ^ exponent`. The table has the powers of ten up to `10 ^ 308`, and a
number that has to become smaller than these can make it is divided by the last one first. -/
def scaled? (x : Double) (exponent : Int) : Option Double :=
  if exponent.natAbs ≤ 308 then
    (tenPower? exponent.natAbs).bind fun power =>
      if 0 ≤ exponent then x.mul? power else x.div? power
  else if x.mantissa = 0 then some x
  else if 0 ≤ exponent then none
  else
    (tenPower? 308).bind fun power =>
      (x.div? power).bind fun smaller => smaller.scaled? (exponent + 308)
termination_by (-exponent).toNat
decreasing_by omega

end DeclaredApi.Double
