import DeclaredApi.Json.Basic
import Mathlib.Logic.Basic

/-!
# `DeclaredApi.Proofs.Json.Same`: equal values and the sign of zero

`Json.same` is the equality of values, and it is coarser than being one value in a single respect:
the two zeros of a double are equal, and yet they are written differently. `unsigned` takes the
sign off every zero in a value, and two values are equal exactly when they are one value after
that (`same_iff`). So values without a negative zero are equal when they are one value
(`same_iff_eq`).
-/

set_option autoImplicit false

namespace DeclaredApi

namespace Double

/-- The double, with the positive zero for the negative one. -/
def unsigned (x : Double) : Double :=
  if x.mantissa = 0 then .zero false else x

/-- Two doubles are equal numbers exactly if they are one double but for the sign of a zero. -/
theorem sameNumber_iff (a b : Double) : a.sameNumber b = true ↔ a.unsigned = b.unsigned := by
  have hzero : ∀ x : Double, x.mantissa ≠ 0 → x ≠ .zero false := by
    rintro x hx rfl
    exact hx rfl
  unfold sameNumber unsigned
  by_cases ha : a.mantissa = 0
  · by_cases hb : b.mantissa = 0
    · simp [ha, hb]
    · have hne : a ≠ b := fun heq => hb (heq ▸ ha)
      simp [ha, hb, hne, (hzero b hb).symm]
  · by_cases hb : b.mantissa = 0
    · have hne : a ≠ b := fun heq => ha (heq ▸ hb)
      simp [ha, hb, hne, hzero a ha]
    · simp [ha, hb]

end Double

namespace Json

/-- The number, without the sign of a zero. -/
def Number.unsigned : Number → Number
  | .int value range => .int value range
  | .float x => .float x.unsigned

/-- Two numbers are equal exactly if they are one number but for the sign of a zero. -/
theorem Number.same_iff (a b : Number) : a.same b = true ↔ a.unsigned = b.unsigned := by
  cases a with
  | int value range =>
      cases b with
      | int value' range' => simp [same, unsigned]
      | float y => simp [same, unsigned]
  | float x =>
      cases b with
      | int value' range' => simp [same, unsigned]
      | float y => simp [same, unsigned, Double.sameNumber_iff]

mutual

/-- The value, with the positive zero for every negative one. -/
def unsigned : Json → Json
  | .number n => .number n.unsigned
  | .array items => .array (unsignedItems items)
  | .object members => .object (unsignedMembers members)
  | value => value

/-- The items of an array, without the signs of zeros. -/
def unsignedItems : List Json → List Json
  | [] => []
  | item :: rest => item.unsigned :: unsignedItems rest

/-- The members of an object, without the signs of zeros. -/
def unsignedMembers : List (String × Json) → List (String × Json)
  | [] => []
  | (name, value) :: rest => (name, value.unsigned) :: unsignedMembers rest

end

mutual

/-- Two values are equal when they are one value but for the signs of zeros. -/
theorem same_iff (a b : Json) : a.same b = true ↔ a.unsigned = b.unsigned := by
  cases a with
  | number n =>
      cases b with
      | number m => simp [same, unsigned, Number.same_iff]
      | _ => simp [same, unsigned]
  | array items =>
      cases b with
      | array others => simp [same, unsigned, sameItems_iff items others]
      | _ => simp [same, unsigned]
  | object members =>
      cases b with
      | object others => simp [same, unsigned, sameMembers_iff members others]
      | _ => simp [same, unsigned]
  | _ => cases b <;> simp [same, unsigned]

/-- Items are compared one by one. -/
theorem sameItems_iff (items others : List Json) :
    sameItems items others = true ↔ unsignedItems items = unsignedItems others := by
  match items, others with
  | [], [] => simp [sameItems]
  | [], _ :: _ => simp [sameItems, unsignedItems]
  | _ :: _, [] => simp [sameItems, unsignedItems]
  | item :: rest, other :: more =>
      simp [sameItems, unsignedItems, same_iff item other, sameItems_iff rest more]

/-- Members are compared one by one, by name and value. -/
theorem sameMembers_iff (members others : List (String × Json)) :
    sameMembers members others = true ↔ unsignedMembers members = unsignedMembers others := by
  match members, others with
  | [], [] => simp [sameMembers]
  | [], _ :: _ => simp [sameMembers, unsignedMembers]
  | _ :: _, [] => simp [sameMembers, unsignedMembers]
  | (name, value) :: rest, (name', value') :: more =>
      simp [sameMembers, unsignedMembers, same_iff value value', sameMembers_iff rest more,
        and_assoc]

end

/-- Values without a negative zero are equal when they are one value. -/
theorem same_iff_eq {a b : Json} (ha : a.unsigned = a) (hb : b.unsigned = b) :
    a.same b = true ↔ a = b := by
  rw [same_iff, ha, hb]

end Json
end DeclaredApi
