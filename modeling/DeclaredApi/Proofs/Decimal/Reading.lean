import DeclaredApi.Decimal.Shortest
import Mathlib.Tactic.NormNum
import Mathlib.Tactic.Positivity
import Mathlib.Tactic.Ring

/-!
# `DeclaredApi.Proofs.Decimal.Reading`: what a decimal is read as

`Double.ofDecimal?` rounds a quotient of naturals, and the result depends on the quotient
alone: a common factor of numerator and denominator changes nothing
(`nearest?_mul_right`). Two things follow.

* `ofDecimal?_mul_pow`: zeros at the end of the digits may be moved into the exponent. So the
  zeros that a positional text writes out are read as the exponent they stand for.
* `ofDecimal?_shortest`: the decimal that is chosen for a double is read as that double. The
  search tries each candidate by reading it, so the only case with an argument is the last
  resort, the exact value of the double with all its digits (`ofDecimal?_exact`).
-/

set_option autoImplicit false

namespace DeclaredApi.Double

/-! ### A common factor changes nothing -/

/-- Rounding does not depend on the form of the quotient. -/
theorem roundHalfEven_mul_right (num den : Nat) {c : Nat} (hc : 0 < c) :
    roundHalfEven (num * c) (den * c) = roundHalfEven num den := by
  have hquot : num * c / (den * c) = num / den := Nat.mul_div_mul_right num den hc
  have hrest : num * c % (den * c) = num % den * c := Nat.mul_mod_mul_right c num den
  have hlow : 2 * (num % den * c) < den * c ↔ 2 * (num % den) < den := by
    rw [← Nat.mul_assoc]
    exact Nat.mul_lt_mul_right hc
  have hhigh : den * c < 2 * (num % den * c) ↔ den < 2 * (num % den) := by
    rw [← Nat.mul_assoc]
    exact Nat.mul_lt_mul_right hc
  simp only [roundHalfEven, hquot, hrest, hlow, hhigh]

/-- The nearest double depends on the quotient alone. -/
theorem nearest?_mul_right (negative : Bool) (num den : Nat) {c : Nat} (hc : 0 < c) :
    nearest? negative (num * c) (den * c) = nearest? negative num den := by
  have hscaled : (num * c) <<< 1074 = num <<< 1074 * c := by
    simp only [Nat.shiftLeft_eq]
    exact Nat.mul_right_comm num c _
  have hden : ∀ s, (den * c) <<< s = den <<< s * c := fun s => by
    simp only [Nat.shiftLeft_eq]
    exact Nat.mul_right_comm den c _
  simp only [nearest?, hscaled, hden, Nat.mul_div_mul_right _ _ hc,
    roundHalfEven_mul_right _ _ hc]

/-! ### Zeros at the end of the digits -/

/-- A factor of ten is one more digit. -/
theorem length_toDigits_mul_ten {n : Nat} (hn : 0 < n) :
    (Nat.toDigits 10 (n * 10)).length = (Nat.toDigits 10 n).length + 1 := by
  -- The digits of `10 * n + 0` are those of `n` and a zero.
  have h := Nat.toDigits_append_toDigits (b := 10) (by decide) hn (show 0 < 10 by decide)
  rw [Nat.add_zero, Nat.mul_comm] at h
  rw [← h, List.length_append, Nat.toDigits_zero]
  rfl

/-- A factor of ten is one more digit. -/
theorem length_toDigits_mul_pow {n : Nat} (hn : 0 < n) (k : Nat) :
    (Nat.toDigits 10 (n * 10 ^ k)).length = (Nat.toDigits 10 n).length + k := by
  induction k with
  | zero => simp
  | succ k ih =>
      rw [pow_succ, ← Nat.mul_assoc, length_toDigits_mul_ten (by positivity), ih]
      rfl

/-- Zeros at the end of the digits are read as the exponent they stand for. -/
theorem ofDecimal?_mul_pow (negative : Bool) (digits k : Nat) (exponent : Int) :
    ofDecimal? negative (digits * 10 ^ k) exponent
      = ofDecimal? negative digits (exponent + k) := by
  rcases Nat.eq_zero_or_pos digits with rfl | hpos
  · simp [ofDecimal?]
  have hne : digits ≠ 0 := by omega
  have hne' : digits * 10 ^ k ≠ 0 := by positivity
  have hpoint : exponent + ((Nat.toDigits 10 (digits * 10 ^ k)).length : Int)
      = exponent + k + (Nat.toDigits 10 digits).length := by
    rw [length_toDigits_mul_pow hpos]
    push_cast
    ring
  simp only [ofDecimal?, hpoint, hne, hne', false_or, Nat.pow_eq]
  congr 2
  -- Both sides are the same quotient, whatever the signs of the two exponents.
  by_cases hexp : 0 ≤ exponent
  · have htotal : 0 ≤ exponent + k := by omega
    have hnat : (exponent + k).toNat = k + exponent.toNat := by omega
    rw [if_pos hexp, if_pos htotal, hnat, Nat.mul_assoc, ← pow_add]
  · rw [if_neg hexp]
    by_cases htotal : 0 ≤ exponent + k
    · have hnat : k = (exponent + k).toNat + (-exponent).toNat := by omega
      rw [if_pos htotal]
      conv_lhs => rw [hnat, pow_add, ← Nat.mul_assoc]
      have h := nearest?_mul_right negative (digits * 10 ^ (exponent + k).toNat) 1
        (c := 10 ^ (-exponent).toNat) (by positivity)
      rwa [Nat.one_mul] at h
    · have hnat : (-exponent).toNat = (-(exponent + k)).toNat + k := by omega
      rw [if_neg htotal, hnat, pow_add]
      exact nearest?_mul_right negative digits _ (by positivity)

/-! ### The exact value of a double -/

/-- The power of two that rounding finds for a double is its own. -/
theorem log2_mantissa_shift (x : Double) :
    (x.mantissa <<< x.scale).log2 + 1 - 53 = x.scale := by
  obtain ⟨negative, mantissa, scale, hlt, hscale, hcanon⟩ := x
  simp only [Nat.shiftLeft_eq]
  -- The mantissa has all its 53 bits, or the scale is the least there is.
  rcases hcanon with hlead | rfl
  · have hne : mantissa * 2 ^ scale ≠ 0 := by positivity
    have hlog : (mantissa * 2 ^ scale).log2 = 52 + scale := by
      rw [Nat.log2_eq_iff hne]
      constructor
      · rw [pow_add]
        exact Nat.mul_le_mul_right _ (by norm_num; exact hlead)
      · rw [show 52 + scale + 1 = 53 + scale by omega, pow_add]
        exact Nat.mul_lt_mul_of_pos_right (by norm_num; exact hlt) (by positivity)
    omega
  · rcases Nat.eq_zero_or_pos mantissa with rfl | hpos
    · simp
    · have hlog : (mantissa * 2 ^ 0).log2 < 53 := by
        rw [Nat.log2_lt (by omega)]
        norm_num
        exact hlt
      omega

/-- A value that stands on the grid leaves nothing to round. -/
theorem roundHalfEven_shift (mantissa scale unit : Nat) :
    roundHalfEven ((mantissa <<< scale) <<< unit) ((1 <<< unit) <<< scale) = mantissa := by
  have hpos : 0 < (1 <<< unit) <<< scale := by
    simp only [Nat.shiftLeft_eq]
    positivity
  have hgrid : (mantissa <<< scale) <<< unit = mantissa * (1 <<< unit) <<< scale := by
    simp only [Nat.shiftLeft_eq]
    ring
  have hrest : mantissa * (1 <<< unit) <<< scale % (1 <<< unit) <<< scale = 0 :=
    Nat.mul_mod_left _ _
  rw [hgrid]
  simp only [roundHalfEven, hrest, Nat.mul_zero, hpos, if_true]
  exact Nat.mul_div_cancel _ hpos

/-- A double is the nearest one to its own value. -/
theorem nearest?_quotient (x : Double) :
    nearest? x.negative x.quotient.1 x.quotient.2 = some x := by
  have hdiv : (x.mantissa <<< x.scale) <<< 1074 / 1 <<< 1074 = x.mantissa <<< x.scale := by
    rw [Nat.shiftLeft_eq _ 1074, Nat.one_shiftLeft]
    exact Nat.mul_div_cancel _ (Nat.two_pow_pos 1074)
  simp only [nearest?, quotient, hdiv, log2_mantissa_shift, roundHalfEven_shift,
    if_pos x.canonical.1]
  exact dif_pos x.canonical

/-- How many digits `n · 5 ^ p` has, for `n` below a power of two. -/
theorem length_toDigits_mul_five_pow {n p q c : Nat} (hp : p = 3 * q) (hpos : 0 < n)
    (hlt : n < 2 ^ (p + 3 * c)) :
    2 * q < (Nat.toDigits 10 (n * 5 ^ p)).length ∧
      (Nat.toDigits 10 (n * 5 ^ p)).length ≤ p + c := by
  constructor
  · -- Three factors of five are more than two of ten.
    by_contra hshort
    have hle : (Nat.toDigits 10 (n * 5 ^ p)).length ≤ 2 * q + 1 - 1 := by omega
    rcases Nat.eq_zero_or_pos q with rfl | hq
    · have := Nat.length_toDigits_pos (b := 10) (n := n * 5 ^ p)
      omega
    rw [Nat.length_toDigits_le_iff (by decide) (by omega)] at hle
    have hge : 10 ^ (2 * q) ≤ n * 5 ^ p :=
      calc 10 ^ (2 * q) = (10 ^ 2) ^ q := Nat.pow_mul 10 2 q
        _ ≤ (5 ^ 3) ^ q := Nat.pow_le_pow_left (by decide) q
        _ = 5 ^ p := by rw [hp, Nat.pow_mul]
        _ ≤ n * 5 ^ p := Nat.le_mul_of_pos_left _ hpos
    exact absurd hle (Nat.not_lt.2 hge)
  · -- A factor of two and one of five make one of ten, and three more of two are less than one.
    rcases Nat.eq_zero_or_pos (p + c) with hzero | hwide
    · have hone : n < 1 := by
        rwa [show p + 3 * c = 0 by omega] at hlt
      omega
    rw [Nat.length_toDigits_le_iff (by decide) hwide]
    calc n * 5 ^ p < 2 ^ (p + 3 * c) * 5 ^ p :=
          Nat.mul_lt_mul_of_pos_right hlt (by positivity)
      _ = (2 * 5) ^ p * (2 ^ 3) ^ c := by
          rw [Nat.mul_pow, Nat.pow_add, Nat.pow_mul 2 3 c]
          ring
      _ ≤ 10 ^ p * 10 ^ c :=
          Nat.mul_le_mul_left _ (Nat.pow_le_pow_left (by decide) c)
      _ = 10 ^ (p + c) := (Nat.pow_add 10 p c).symm

/-- The absolute value of a double, counted in its least unit, is below `2 ^ 2098`. -/
theorem mantissa_shift_lt (x : Double) {width : Nat} (hwidth : 2098 ≤ width) :
    x.mantissa <<< x.scale < 2 ^ width := by
  have hmantissa : x.mantissa < 2 ^ 53 := x.canonical.1
  have hscale := x.canonical.2.1
  rw [Nat.shiftLeft_eq]
  calc x.mantissa * 2 ^ x.scale < 2 ^ 53 * 2 ^ x.scale :=
        Nat.mul_lt_mul_of_pos_right hmantissa (by positivity)
    _ = 2 ^ (53 + x.scale) := (Nat.pow_add 2 53 x.scale).symm
    _ ≤ 2 ^ width := Nat.pow_le_pow_right (by decide) (by omega)

/-- A power of ten, as a shift and a power of five. -/
theorem ten_pow_eq_shift (p : Nat) : 10 ^ p = 1 <<< p * 5 ^ p := by
  rw [Nat.one_shiftLeft, ← Nat.mul_pow]

/-- A decimal whose first digit is neither too far left nor too far right is read by rounding
the quotient it stands for. -/
theorem ofDecimal?_neg (negative : Bool) {digits p : Nat} (hne : digits ≠ 0) (hp : 0 < p)
    (hleast : p ≤ (Nat.toDigits 10 digits).length + 400)
    (hmost : (Nat.toDigits 10 digits).length ≤ p + 400) :
    ofDecimal? negative digits (-(p : Int)) = nearest? negative digits (10 ^ p) := by
  simp only [ofDecimal?, Nat.pow_eq]
  rw [if_neg (by omega), if_neg (by omega), if_neg (by omega), Int.neg_neg, Int.toNat_natCast]

/-- The exact value of a double, with all its digits, is read as that double. The power of
five is kept as a variable, so that nothing evaluates it. -/
theorem ofDecimal?_exact {x : Double} {p : Nat} (hp : p = 1074) (hpos : 0 < x.mantissa) :
    ofDecimal? x.negative (x.mantissa <<< x.scale * Nat.pow 5 p) (-1074) = some x := by
  have hshift : 0 < x.mantissa <<< x.scale := by
    rw [Nat.shiftLeft_eq]
    exact Nat.mul_pos hpos (by positivity)
  obtain ⟨hleast, hmost⟩ := length_toDigits_mul_five_pow (p := p) (q := 358) (c := 342)
    (by omega) hshift (mantissa_shift_lt x (by omega))
  have hfive : 0 < 5 ^ p := Nat.pow_pos (by decide)
  rw [show (-1074 : Int) = -(p : Int) by omega, Nat.pow_eq,
    ofDecimal?_neg _ (Nat.mul_pos hshift hfive).ne' (by omega) (by omega) (by omega),
    ten_pow_eq_shift, nearest?_mul_right _ _ _ hfive]
  subst hp
  exact nearest?_quotient x

/-- The decimal that is chosen for a double is read as that double. -/
theorem ofDecimal?_shortest (x : Double) :
    ofDecimal? x.negative x.shortest.digits x.shortest.exponent = some x := by
  unfold shortest
  split
  · next hzero =>
      obtain ⟨negative, mantissa, scale, hcanon⟩ := x
      obtain rfl : mantissa = 0 := hzero
      obtain rfl : scale = 0 := by omega
      rfl
  · next hne =>
      cases hfound : x.candidates.find? x.isReadBy with
      | none =>
          -- No shorter candidate is read as the double, so all digits are written.
          generalize hp : 1074 = p
          exact ofDecimal?_exact hp.symm (Nat.pos_of_ne_zero hne)
      | some d =>
          -- A candidate is taken only if it is read as the double.
          have hread : x.isReadBy d = true := List.find?_some hfound
          exact of_decide_eq_true hread

/-- Only zero is written with the digit zero. -/
theorem shortest_digits_eq_zero_iff (x : Double) : x.shortest.digits = 0 ↔ x.mantissa = 0 := by
  constructor
  · intro hzero
    have hread := ofDecimal?_shortest x
    rw [hzero] at hread
    have hx : x = zero x.negative := by
      simpa [ofDecimal?] using hread.symm
    rw [hx]
    rfl
  · intro hzero
    rw [shortest, if_pos hzero]

end DeclaredApi.Double
