import DeclaredApi.Json.Token
import DeclaredApi.Proofs.Decimal.Reading

/-!
# `DeclaredApi.Proofs.Json.NumberText`: numbers read back from their text

A number token ends where no further digit, point or exponent follows (`EndsNumber`).
`scanLiteral?_text` scans the text of any well-formed literal in front of such a rest and
finds the same literal.

The text of a number is the text of a literal. An integer is its digits. A decimal has four
layouts, and `Literal.Spells` says what the literal of each must be: it has the text of the
decimal, and its parts are those of the decimal. `exists_spells` finds it, whatever the layout,
and `ofDecimal?_shortest` says that the double is the one nearest to it. The result is
`Number.exists_literal`: every number has the text of a literal that tells it, if the literal is
taken for the nearest double (`Literal.nearest?`). Doubles are read by best effort, so this is
more than the reader makes of the literal.
-/

set_option autoImplicit false

namespace DeclaredApi.Json

/-! ### Digits -/

/-- Digits as a part of a number, where there must be one. -/
def AreDigits (digits : List Char) : Prop :=
  digits ≠ [] ∧ ∀ c ∈ digits, c.isDigit = true

/-- The rest of a text goes on with no digit. -/
def EndsDigits (rest : List Char) : Prop :=
  ∀ c ∈ rest.head?, c.isDigit = false

/-- The decimal of a natural number is digits. -/
theorem AreDigits.toDigits (n : Nat) : AreDigits (Nat.toDigits 10 n) :=
  ⟨Nat.toDigits_ne_nil, fun _ hc => Nat.isDigit_of_mem_toDigits (by decide) (by decide) hc⟩

/-- Digits in front of digits are digits. -/
theorem AreDigits.append {front back : List Char} (hfront : ∀ c ∈ front, c.isDigit = true)
    (hback : AreDigits back) : AreDigits (front ++ back) := by
  refine ⟨by simp [hback.1], ?_⟩
  intro c hc
  rcases List.mem_append.1 hc with hc | hc
  · exact hfront c hc
  · exact hback.2 c hc

/-- Zeros that fill up a number are digits. -/
theorem isDigit_of_mem_replicate {c : Char} {n : Nat} (hc : c ∈ List.replicate n '0') :
    c.isDigit = true := by
  rw [(List.mem_replicate.1 hc).2]
  rfl

/-- Digits are taken whole where no further digit follows. -/
theorem digits?_append {digits rest : List Char} (hdigits : AreDigits digits)
    (hrest : EndsDigits rest) : digits? (digits ++ rest) = some (digits, rest) := by
  have htake : (digits ++ rest).takeWhile Char.isDigit = digits := by
    rw [List.takeWhile_append_of_pos hdigits.2]
    cases rest with
    | nil => simp
    | cons c rest =>
        have hc : c.isDigit = false := hrest c rfl
        simp [hc]
  have hdrop : (digits ++ rest).dropWhile Char.isDigit = rest := by
    rw [List.dropWhile_append_of_pos hdigits.2]
    cases rest with
    | nil => rfl
    | cons c rest =>
        have hc : c.isDigit = false := hrest c rfl
        simp [hc]
  rw [digits?, htake, hdrop]
  cases digits with
  | nil => exact absurd rfl hdigits.1
  | cons => rfl

/-- The digits of a number start with zero only if the number is zero. -/
theorem eq_zero_of_head_toDigits {n : Nat} (hhead : (Nat.toDigits 10 n).head? = some '0') :
    n = 0 := by
  -- The first digit of a longer number is that of its tenth.
  induction n using Nat.strongRecOn with
  | ind n ih =>
      rcases Nat.lt_or_ge n 10 with hlt | hge
      · rw [Nat.toDigits_of_lt_base hlt] at hhead
        have hdigit : n.digitChar = '0' := by simpa using hhead
        have hten : ∀ m < 10, Nat.digitChar m = '0' → m = 0 := by decide
        exact hten n hlt hdigit
      · rw [Nat.toDigits_of_base_le (by decide) hge,
          List.head?_append_of_ne_nil _ Nat.toDigits_ne_nil] at hhead
        have hquot := ih (n / 10) (by omega) hhead
        omega

/-! ### Literals -/

/-- The point and the digits after it. -/
def fractionText : Option (List Char) → List Char
  | none => []
  | some digits => '.' :: digits

/-- The mark, the sign and the digits of an exponent. -/
def powerText : Option (Bool × List Char) → List Char
  | none => []
  | some (true, digits) => 'e' :: '-' :: digits
  | some (false, digits) => 'e' :: '+' :: digits

/-- The text of a literal after its sign. -/
def Literal.unsignedText (l : Literal) : List Char :=
  l.whole ++ (fractionText l.fraction ++ powerText l.exponent)

/-- The text of a literal. -/
def Literal.text (l : Literal) : List Char :=
  if l.negative then '-' :: l.unsignedText else l.unsignedText

/-- What the parts of a literal look like:

- `whole`: the digits before the point, of which there is one at least;
- `lead`: they start with zero only if that is all;
- `fraction`: the digits after the point, if there is one;
- `exponent`: the digits of the exponent, if there is one. -/
structure Literal.WellFormed (l : Literal) : Prop where
  whole : AreDigits l.whole
  lead : l.whole.head? = some '0' → l.whole = ['0']
  fraction : ∀ digits ∈ l.fraction, AreDigits digits
  exponent : ∀ exponent ∈ l.exponent, AreDigits exponent.2

/-- The rest of a text goes on with nothing that belongs to a number. -/
def EndsNumber (rest : List Char) : Prop :=
  ∀ c ∈ rest.head?, c.isDigit = false ∧ c ≠ '.' ∧ c ≠ 'e' ∧ c ≠ 'E'

/-- What ends a number ends its digits. -/
theorem EndsNumber.endsDigits {rest : List Char} (h : EndsNumber rest) : EndsDigits rest :=
  fun c hc => (h c hc).1

/-- The digits before the point are scanned from their text, if they have no zero too many. -/
theorem whole?_append {whole rest : List Char} (hwhole : AreDigits whole)
    (hlead : whole.head? = some '0' → whole = ['0']) (hrest : EndsDigits rest) :
    whole? (whole ++ rest) = some (whole, rest) := by
  by_cases hzero : whole.head? = some '0'
  · -- A leading zero is taken alone, and the whole part has nothing else.
    rw [hlead hzero]
    rfl
  · rw [← digits?_append hwhole hrest]
    cases whole with
    | nil => exact absurd rfl hwhole.1
    | cons c more =>
        have hc : c ≠ '0' := fun h => hzero (by rw [h]; rfl)
        rw [List.cons_append, whole?]
        exact fun _ h => hc (List.cons.inj h).1

/-- The digits after the point are scanned from their text. -/
theorem fraction?_append {fraction : Option (List Char)} {rest : List Char}
    (hfraction : ∀ digits ∈ fraction, AreDigits digits) (hdigits : EndsDigits rest)
    (hpoint : rest.head? ≠ some '.') :
    fraction? (fractionText fraction ++ rest) = some (fraction, rest) := by
  cases fraction with
  | none =>
      cases rest with
      | nil => rfl
      | cons c rest =>
          -- No point, no fraction: the rest is left as it is.
          have hc : c ≠ '.' := fun h => hpoint (by rw [h]; rfl)
          show fraction? (c :: rest) = _
          rw [fraction?]
          exact fun _ h => hc (List.cons.inj h).1
  | some digits =>
      show (digits? (digits ++ rest)).map _ = _
      rw [digits?_append (hfraction digits rfl) hdigits]
      rfl

/-- The exponent is scanned from its text. -/
theorem exponent?_append {exponent : Option (Bool × List Char)} {rest : List Char}
    (hexponent : ∀ e ∈ exponent, AreDigits e.2) (hrest : EndsNumber rest) :
    exponent? (powerText exponent ++ rest) = some (exponent, rest) := by
  rcases exponent with _ | ⟨negative, digits⟩
  · cases rest with
    | nil => rfl
    | cons c rest =>
        obtain ⟨-, -, hlower, hupper⟩ := hrest c rfl
        show exponent? (c :: rest) = _
        rw [exponent?, if_neg (by simp [hlower, hupper])]
  · have hdigits := digits?_append (hexponent _ rfl) hrest.endsDigits
    cases negative
    · show (signedDigits? ('+' :: (digits ++ rest))).map _ = _
      rw [signedDigits?, hdigits]
      rfl
    · show (signedDigits? ('-' :: (digits ++ rest))).map _ = _
      rw [signedDigits?, hdigits]
      rfl

/-- An exponent starts with its mark, so neither digits nor a point go on into it. -/
theorem head?_powerText (exponent : Option (Bool × List Char)) {rest : List Char}
    (hrest : EndsNumber rest) :
    ∀ c ∈ (powerText exponent ++ rest).head?, c.isDigit = false ∧ c ≠ '.' := by
  intro c hc
  rcases exponent with _ | ⟨_ | _, digits⟩
  · exact ⟨(hrest c hc).1, (hrest c hc).2.1⟩
  all_goals
    obtain rfl : 'e' = c := by simpa [powerText] using hc
    decide

/-- A point ends the digits before it. -/
theorem endsDigits_fractionText (fraction : Option (List Char)) {rest : List Char}
    (hrest : EndsDigits rest) : EndsDigits (fractionText fraction ++ rest) := by
  rcases fraction with _ | digits
  · exact hrest
  · intro c hc
    obtain rfl : '.' = c := by simpa [fractionText] using hc
    rfl

/-- A literal is scanned whole where nothing follows that belongs to a number. -/
theorem scanLiteral?_text {l : Literal} (hl : l.WellFormed) {rest : List Char}
    (hrest : EndsNumber rest) :
    scanLiteral? l.negative (l.unsignedText ++ rest) = some (l, rest) := by
  have hpower := head?_powerText l.exponent hrest
  have hdigits : EndsDigits (powerText l.exponent ++ rest) := fun c hc => (hpower c hc).1
  have hpoint : (powerText l.exponent ++ rest).head? ≠ some '.' :=
    fun h => (hpower _ h).2 rfl
  simp only [scanLiteral?, Literal.unsignedText, List.append_assoc, Option.bind_eq_bind]
  -- Each part ends where the next one begins, so they are taken off one after the other.
  rw [whole?_append hl.whole hl.lead (endsDigits_fractionText _ hdigits), Option.bind_some,
    fraction?_append hl.fraction hdigits hpoint, Option.bind_some,
    exponent?_append hl.exponent hrest]
  rfl

/-! ### The literal of a number -/

/-- The value of the decimal of a number is the number. -/
theorem digitsValue_toDigits (n : Nat) : digitsValue (Nat.toDigits 10 n) = n :=
  Nat.ofDigitChars_ten_toDigits

/-- Leading zeros add nothing to the value. -/
theorem digitsValue_replicate_append (k : Nat) (digits : List Char) :
    digitsValue (List.replicate k '0' ++ digits) = digitsValue digits := by
  rw [digitsValue, Nat.ofDigitChars_append, Nat.ofDigitChars_replicate_zero, Nat.mul_zero]
  rfl

/-- Zeros at the end are powers of ten. -/
theorem digitsValue_append_replicate (digits : List Char) (k : Nat) :
    digitsValue (digits ++ List.replicate k '0') = digitsValue digits * 10 ^ k := by
  rw [digitsValue, Nat.ofDigitChars_append, Nat.ofDigitChars_replicate_zero, Nat.mul_comm]
  rfl

/-- The exponent of ten in the text of a literal, with its sign apart. -/
def signedDigits (e : Int) : Bool × List Char :=
  (decide (e < 0), Nat.toDigits 10 e.natAbs)

/-- An exponent is written with its sign, also if it is positive. -/
theorem powerText_signedDigits (e : Int) :
    powerText (some (signedDigits e)) = 'e' :: exponentText e := by
  by_cases he : e < 0
  · simp [signedDigits, powerText, exponentText, he]
  · simp [signedDigits, powerText, exponentText, he]

/-- The exponent of a literal is read back from its sign and digits. -/
theorem power_signedDigits (negative : Bool) (whole : List Char)
    (fraction : Option (List Char)) (e : Int) :
    Literal.power ⟨negative, whole, fraction, some (signedDigits e)⟩ = e := by
  by_cases he : e < 0
  · simp only [Literal.power, signedDigits, he, decide_true, digitsValue_toDigits]
    omega
  · simp only [Literal.power, signedDigits, he, decide_false, digitsValue_toDigits]
    omega

/-- The literal writes the decimal and tells it.

- `sign`: its sign is the given one;
- `text`: after the sign its text is that of the decimal;
- `wellFormed`: its parts look like the parts of a number;
- `point`: it has a point or an exponent, so it is no integer;
- `value`: the double nearest to it is the one nearest to the decimal. -/
structure Literal.Spells (l : Literal) (negative : Bool) (d : Decimal) : Prop where
  sign : l.negative = negative
  text : l.unsignedText = decimalText d
  wellFormed : l.WellFormed
  point : ¬(l.fraction.isNone ∧ l.exponent.isNone)
  value : Double.ofDecimal? negative (digitsValue (l.whole ++ l.fraction.getD []))
    (l.power - (l.fraction.getD []).length) = Double.ofDecimal? negative d.digits d.exponent

/-- One digit never has a zero in front of it. -/
theorem Literal.WellFormed.single {negative : Bool} {c : Char} {fraction : Option (List Char)}
    {exponent : Option (Bool × List Char)} (hc : c.isDigit = true)
    (hfraction : ∀ digits ∈ fraction, AreDigits digits)
    (hexponent : ∀ e ∈ exponent, AreDigits e.2) :
    Literal.WellFormed ⟨negative, [c], fraction, exponent⟩ := by
  refine ⟨⟨by simp, by simpa using hc⟩, ?_, hfraction, hexponent⟩
  intro hhead
  obtain rfl : c = '0' := by simpa using hhead
  rfl

/-- The digits of an exponent are digits. -/
theorem areDigits_signedDigits (e : Int) :
    ∀ exponent ∈ some (signedDigits e), AreDigits exponent.2 := by
  intro exponent hexponent
  obtain rfl : signedDigits e = exponent := by simpa using hexponent
  exact AreDigits.toDigits _

/-- The power of ten at which the first digit of a decimal stands. -/
def leadPower (d : Decimal) : Int :=
  d.exponent + (Nat.toDigits 10 d.digits).length - 1

/-- The decimal is too large or too small to be written without an exponent. -/
def WantsExponent (d : Decimal) : Prop :=
  leadPower d < layout.leastPositional ∨ layout.greatestPositional < leadPower d

/-- A decimal with an exponent: one digit, the others after the point, if there are any. -/
theorem exists_spells_exponent (negative : Bool) {d : Decimal} (hwants : WantsExponent d) :
    ∃ l : Literal, l.Spells negative d := by
  have hdigits := AreDigits.toDigits d.digits
  have hvalue := digitsValue_toDigits d.digits
  have hlead : leadPower d = d.exponent + (Nat.toDigits 10 d.digits).length - 1 := rfl
  have htext : decimalText d = _ := if_pos hwants
  rw [← hlead] at htext
  -- The digits are split below, so what is known about them is first said of a variable.
  generalize leadPower d = lead at hlead htext
  generalize Nat.toDigits 10 d.digits = digits at *
  rcases digits with _ | ⟨first, _ | ⟨second, more⟩⟩
  · exact absurd rfl hdigits.1
  · refine ⟨⟨negative, [first], none, some (signedDigits lead)⟩, rfl, ?_, ?_, by simp, ?_⟩
    · simp [Literal.unsignedText, fractionText, powerText_signedDigits, htext]
    · exact .single (hdigits.2 first (by simp)) (by simp) (areDigits_signedDigits lead)
    · simp [power_signedDigits, hvalue, hlead]
  · refine ⟨⟨negative, [first], some (second :: more), some (signedDigits lead)⟩, rfl, ?_, ?_,
      by simp, ?_⟩
    · simp [Literal.unsignedText, fractionText, powerText_signedDigits, htext]
    · refine .single (hdigits.2 first (by simp)) ?_ (areDigits_signedDigits lead)
      intro digits hmem
      obtain rfl : second :: more = digits := by simpa using hmem
      exact ⟨by simp, fun c hc => hdigits.2 c (List.mem_cons_of_mem _ hc)⟩
    · -- The digits after the point count down from the leading power to the exponent.
      have hpower : lead - ((second :: more).length : Int) = d.exponent := by
        rw [hlead]
        push_cast [List.length_cons]
        ring
      simp only [power_signedDigits, Option.getD_some, List.singleton_append, hvalue, hpower]

/-- The text of a decimal that is written without an exponent. -/
theorem decimalText_plain {d : Decimal} (hplain : ¬WantsExponent d) :
    decimalText d =
      if 0 ≤ d.exponent then
        Nat.toDigits 10 d.digits ++ List.replicate d.exponent.toNat '0' ++ ['.', '0']
      else if 0 ≤ leadPower d then
        (Nat.toDigits 10 d.digits).take (leadPower d + 1).toNat
          ++ '.' :: (Nat.toDigits 10 d.digits).drop (leadPower d + 1).toNat
      else
        ['0', '.'] ++ List.replicate (-leadPower d - 1).toNat '0' ++ Nat.toDigits 10 d.digits :=
  if_neg hplain

/-- A decimal whose digits end before the point: the zeros up to it, and one after it. -/
theorem exists_spells_integral (negative : Bool) {d : Decimal}
    (hzero : d.digits = 0 → d.exponent = 0) (hexp : 0 ≤ d.exponent)
    (hplain : ¬WantsExponent d) :
    ∃ l : Literal, l.Spells negative d := by
  have hdigits := AreDigits.toDigits d.digits
  -- `k` zeros stand between the digits and the point.
  obtain ⟨k, hk⟩ : ∃ k : Nat, d.exponent = k := ⟨d.exponent.toNat, by omega⟩
  have htext : decimalText d
      = Nat.toDigits 10 d.digits ++ List.replicate k '0' ++ ['.', '0'] := by
    have hnat : d.exponent.toNat = k := by omega
    rw [decimalText_plain hplain, if_pos hexp, hnat]
  refine ⟨⟨negative, Nat.toDigits 10 d.digits ++ List.replicate k '0', some ['0'], none⟩,
    rfl, ?_, ⟨?_, ?_, ?_, ?_⟩, by simp, ?_⟩
  · simp [Literal.unsignedText, fractionText, powerText, htext]
  · refine ⟨by simp [hdigits.1], ?_⟩
    intro c hc
    rcases List.mem_append.1 hc with hc | hc
    · exact hdigits.2 c hc
    · exact isDigit_of_mem_replicate hc
  · -- A leading zero means that the number is zero, and then no zeros are added.
    intro hhead
    rw [List.head?_append_of_ne_nil _ hdigits.1] at hhead
    have hd := eq_zero_of_head_toDigits hhead
    obtain rfl : k = 0 := by
      have := hzero hd
      omega
    rw [hd]
    rfl
  · intro digits hmem
    obtain rfl : ['0'] = digits := by simpa using hmem
    exact ⟨by simp, by simp⟩
  · simp
  · have hvalue : digitsValue (Nat.toDigits 10 d.digits ++ List.replicate k '0' ++ ['0'])
        = d.digits * 10 ^ (k + 1) := by
      rw [List.append_assoc, show List.replicate k '0' ++ ['0'] = List.replicate (k + 1) '0' from
        List.replicate_succ'.symm, digitsValue_append_replicate, digitsValue_toDigits]
    show Double.ofDecimal? negative (digitsValue (Nat.toDigits 10 d.digits
      ++ List.replicate k '0' ++ ['0'])) (0 - 1) = _
    rw [hvalue, Double.ofDecimal?_mul_pow, hk]
    congr 1
    push_cast
    ring

/-- A decimal with its point between two of its digits. -/
theorem exists_spells_inside (negative : Bool) {d : Decimal} (hexp : d.exponent < 0)
    (hlead : 0 ≤ leadPower d) (hplain : ¬WantsExponent d) :
    ∃ l : Literal, l.Spells negative d := by
  have hdigits := AreDigits.toDigits d.digits
  have hpower : leadPower d = d.exponent + (Nat.toDigits 10 d.digits).length - 1 := rfl
  -- `k` digits stand before the point.
  obtain ⟨k, hk⟩ : ∃ k : Nat, d.exponent + (Nat.toDigits 10 d.digits).length = k :=
    ⟨(d.exponent + (Nat.toDigits 10 d.digits).length).toNat, by omega⟩
  have htext : decimalText d
      = (Nat.toDigits 10 d.digits).take k ++ '.' :: (Nat.toDigits 10 d.digits).drop k := by
    have hnat : (leadPower d + 1).toNat = k := by omega
    rw [decimalText_plain hplain, if_neg (Int.not_le.2 hexp), if_pos hlead, hnat]
  have htake : ((Nat.toDigits 10 d.digits).take k).length = k := by
    rw [List.length_take]
    omega
  have hdrop : ((Nat.toDigits 10 d.digits).drop k).length
      = (Nat.toDigits 10 d.digits).length - k := List.length_drop
  refine ⟨⟨negative, (Nat.toDigits 10 d.digits).take k, some ((Nat.toDigits 10 d.digits).drop k),
    none⟩, rfl, ?_, ⟨⟨?_, ?_⟩, ?_, ?_, ?_⟩, by simp, ?_⟩
  · simp [Literal.unsignedText, fractionText, powerText, htext]
  · intro hnil
    have := congrArg List.length hnil
    rw [htake, List.length_nil] at this
    omega
  · exact fun c hc => hdigits.2 c (List.mem_of_mem_take hc)
  · -- A number that starts with zero is zero, and has no two digits.
    intro hhead
    rw [List.head?_take, if_neg (by omega)] at hhead
    have hlen : (Nat.toDigits 10 d.digits).length = 1 := by
      rw [eq_zero_of_head_toDigits hhead]
      rfl
    omega
  · intro digits hmem
    obtain rfl : (Nat.toDigits 10 d.digits).drop k = digits := by simpa using hmem
    refine ⟨?_, fun c hc => hdigits.2 c (List.mem_of_mem_drop hc)⟩
    intro hnil
    rw [hnil, List.length_nil] at hdrop
    omega
  · simp
  · show Double.ofDecimal? negative (digitsValue ((Nat.toDigits 10 d.digits).take k
      ++ (Nat.toDigits 10 d.digits).drop k)) (0 - ((Nat.toDigits 10 d.digits).drop k).length) = _
    rw [List.take_append_drop, digitsValue_toDigits, hdrop]
    congr 1
    omega

/-- A decimal below one: the zeros after the point, and then the digits. -/
theorem exists_spells_small (negative : Bool) {d : Decimal}
    (hlead : leadPower d < 0) (hplain : ¬WantsExponent d) :
    ∃ l : Literal, l.Spells negative d := by
  have hdigits := AreDigits.toDigits d.digits
  have hpower : leadPower d = d.exponent + (Nat.toDigits 10 d.digits).length - 1 := rfl
  have hpos := Nat.length_toDigits_pos (b := 10) (n := d.digits)
  -- `k` zeros stand between the point and the digits.
  obtain ⟨k, hk⟩ : ∃ k : Nat, -leadPower d - 1 = k := ⟨(-leadPower d - 1).toNat, by omega⟩
  have htext : decimalText d
      = ['0', '.'] ++ List.replicate k '0' ++ Nat.toDigits 10 d.digits := by
    rw [decimalText_plain hplain, if_neg (show ¬0 ≤ d.exponent by omega),
      if_neg (Int.not_le.2 hlead), hk, Int.toNat_natCast]
  refine ⟨⟨negative, ['0'], some (List.replicate k '0' ++ Nat.toDigits 10 d.digits), none⟩,
    rfl, ?_, ?_, by simp, ?_⟩
  · simp [Literal.unsignedText, fractionText, powerText, htext]
  · refine .single (by decide) ?_ (by simp)
    intro digits hmem
    obtain rfl : List.replicate k '0' ++ Nat.toDigits 10 d.digits = digits := by
      simpa using hmem
    exact .append (fun c hc => isDigit_of_mem_replicate hc) hdigits
  · have hvalue : digitsValue (['0'] ++ (List.replicate k '0' ++ Nat.toDigits 10 d.digits))
        = d.digits := by
      rw [show ['0'] ++ (List.replicate k '0' ++ Nat.toDigits 10 d.digits)
          = List.replicate (k + 1) '0' ++ Nat.toDigits 10 d.digits from rfl,
        digitsValue_replicate_append, digitsValue_toDigits]
    show Double.ofDecimal? negative (digitsValue (['0'] ++ (List.replicate k '0'
      ++ Nat.toDigits 10 d.digits)))
      (0 - (List.replicate k '0' ++ Nat.toDigits 10 d.digits).length) = _
    rw [hvalue]
    congr 1
    rw [List.length_append, List.length_replicate]
    push_cast
    omega

/-- Whatever the layout, the text of a decimal is that of a literal that tells it. -/
theorem exists_spells (negative : Bool) {d : Decimal} (hzero : d.digits = 0 → d.exponent = 0) :
    ∃ l : Literal, l.Spells negative d := by
  by_cases hwants : WantsExponent d
  · exact exists_spells_exponent negative hwants
  by_cases hexp : 0 ≤ d.exponent
  · exact exists_spells_integral negative hzero hexp hwants
  by_cases hlead : 0 ≤ leadPower d
  · exact exists_spells_inside negative (by omega) hlead hwants
  · exact exists_spells_small negative (by omega) hwants

/-- The number that a literal stands for if it is read exactly: an integer, or the nearest
double. -/
def Literal.nearest? (l : Literal) : Option Number :=
  l.integer? <|> (Double.ofDecimal? l.negative (digitsValue (l.whole ++ l.fraction.getD []))
    (l.power - (l.fraction.getD []).length)).map Number.float

/-- The text of a number is the text of a literal that tells that number. -/
theorem Number.exists_literal (n : Number) :
    ∃ l : Literal, l.text = n.text ∧ l.WellFormed ∧ l.nearest? = some n := by
  cases n with
  | int value range =>
      -- The sign stands apart, and the digits are those of the absolute value.
      refine ⟨⟨decide (value < 0), Nat.toDigits 10 value.natAbs, none, none⟩, ?_, ?_, ?_⟩
      · simp [Literal.text, Literal.unsignedText, fractionText, powerText, Number.text]
      · refine ⟨AreDigits.toDigits _, ?_, by simp, by simp⟩
        intro hhead
        rw [eq_zero_of_head_toDigits hhead]
        rfl
      · have hvalue : (if decide (value < 0) = true then -(value.natAbs : Int)
            else (value.natAbs : Int)) = value := by
          by_cases hneg : value < 0
          · rw [if_pos (by simpa using hneg)]
            omega
          · rw [if_neg (by simpa using hneg)]
            omega
        simp only [Literal.nearest?, Literal.integer?, digitsValue_toDigits, hvalue]
        rw [if_pos (by simp; omega), dif_pos range]
        rfl
  | float x =>
      have hzero : x.shortest.digits = 0 → x.shortest.exponent = 0 := by
        intro h
        rw [Double.shortest, if_pos (x.shortest_digits_eq_zero_iff.1 h)]
      obtain ⟨l, hl⟩ := exists_spells x.negative hzero
      refine ⟨l, ?_, hl.wellFormed, ?_⟩
      · simp only [Literal.text, Number.text, hl.sign, hl.text]
      · have hvalue := hl.value
        rw [Double.ofDecimal?_shortest] at hvalue
        have hpoint := hl.point
        have hinteger : l.integer? = none := if_neg (by tauto)
        rw [Literal.nearest?, hinteger, hl.sign, hvalue]
        rfl

end DeclaredApi.Json
