import DeclaredApi.Proofs.Transform.Step
import Mathlib.Logic.Function.Iterate

/-!
# `DeclaredApi.Proofs.Transform.Elements`: transforms go through arrays element by element

A step does to an array what it does to each of its elements, with the fields or rules as they
apply there (`extract_array_eq_ok_iff`, `renamed_array_eq_ok_iff`). So a step does to a value what
it does to the elements that are reached through arrays alone. `element?` reads such an element at
its positions, and after `n` of them the fields are those that have lost their markers `n` times.

`inductionOnElements` is the induction that goes with this.
-/

set_option autoImplicit false

namespace DeclaredApi.Json

variable {data result : Json} {items : List Json} {fields : List (List Char)}
  {rules : List PathPair}

/-- The element at the positions, through arrays alone. -/
def element? : List Nat → Json → Option Json
  | [], data => some data
  | position :: rest, .array items => items[position]? >>= element? rest
  | _ :: _, _ => none

/-- Every element of an array is at some position. -/
theorem exists_element?_cons {item : Json} (h : item ∈ items) :
    ∃ position, ∀ spot, (Json.array items).element? (position :: spot) = item.element? spot := by
  obtain ⟨position, hitem⟩ := List.mem_iff_getElem?.1 h
  refine ⟨position, fun spot => ?_⟩
  rw [element?, hitem]
  rfl

/-- What holds of all but arrays, and of an array if of its elements, holds of every value. -/
theorem inductionOnElements {motive : Json → Prop}
    (items : ∀ items, (∀ item ∈ items, motive item) → motive (.array items))
    (other : ∀ data, (∀ items, data ≠ .array items) → motive data) (data : Json) : motive data := by
  match data with
  | .array elements => exact items elements fun item hmem => inductionOnElements items other item
  | .null | .bool _ | .number _ | .string _ | .object _ => exact other _ (by simp)
termination_by sizeOf data
decreasing_by
  have hlt := List.sizeOf_lt_of_mem hmem
  simp only [array.sizeOf_spec]
  omega

/-- In an object the fields are read one after the other. -/
theorem extract_object (members : Dict Json) (fields : List (List Char)) :
    (Json.object members).extract fields
      = fields.foldlM (extractField (.object members)) (.object []) :=
  rfl

/-- In an object the rules apply one after the other. -/
theorem renamed_object (members : Dict Json) (rules : List PathPair) :
    (Json.object members).renamed rules
      = rules.foldlM (fun data rule => (move rule.1 rule.2).apply data) (.object members) :=
  rfl

/-- Fields are extracted from each item. -/
theorem extractItems_eq_mapM (fields : List (List Char)) (items : List Json) :
    extractItems fields items = items.mapM (extract fields) := by
  induction items with
  | nil => rfl
  | cons item rest ih => rw [extractItems, List.mapM_cons, ih]

/-- Rules are applied to each item. -/
theorem renamedItems_eq_mapM (rules : List PathPair) (items : List Json) :
    renamedItems rules items = items.mapM (renamed rules) := by
  induction items with
  | nil => rfl
  | cons item rest ih => rw [renamedItems, List.mapM_cons, ih]

/-- A function goes through arrays from each item. -/
theorem throughItems_eq_mapM (f : Json → Except TransformError Json) (items : List Json) :
    throughItems f items = items.mapM (throughArrays f) := by
  induction items with
  | nil => rfl
  | cons item rest ih => rw [throughItems, List.mapM_cons, ih]

/-- An array is reduced element by element. -/
theorem extract_array_eq_ok_iff :
    (Json.array items).extract fields = .ok result ↔
      ∃ reduced, result = .array reduced ∧
        List.Forall₂ (fun item value => item.extract (elementFields fields) = .ok value)
          items reduced := by
  rw [extract, extractItems_eq_mapM]
  constructor
  · intro h
    obtain ⟨reduced, hitems, rfl⟩ := exists_of_map_ok h
    exact ⟨reduced, rfl, mapM_eq_ok_iff.1 hitems⟩
  · rintro ⟨reduced, rfl, hitems⟩
    rw [mapM_eq_ok_iff.2 hitems]
    rfl

/-- An array is renamed element by element. -/
theorem renamed_array_eq_ok_iff :
    (Json.array items).renamed rules = .ok result ↔
      ∃ changed, result = .array changed ∧
        List.Forall₂ (fun item value => item.renamed (elementRules rules) = .ok value)
          items changed := by
  rw [renamed, renamedItems_eq_mapM]
  constructor
  · intro h
    obtain ⟨changed, hitems, rfl⟩ := exists_of_map_ok h
    exact ⟨changed, rfl, mapM_eq_ok_iff.1 hitems⟩
  · rintro ⟨changed, rfl, hitems⟩
    rw [mapM_eq_ok_iff.2 hitems]
    rfl

/-- A field alone loses the marker that it starts with. -/
theorem elementFields_singleton (field : List Char) :
    elementFields [field] = [(Path.stripWildcard? field).getD field] := by
  rw [elementFields, List.mapM_cons, List.mapM_nil]
  cases Path.stripWildcard? field <;> rfl

/-- An element is reduced to the fields as they apply there. -/
theorem extract_element? {spot : List Nat} {item : Json} (h : data.extract fields = .ok result)
    (hspot : data.element? spot = some item) :
    ∃ kept, result.element? spot = some kept ∧
      item.extract (elementFields^[spot.length] fields) = .ok kept := by
  induction spot generalizing data result fields with
  | nil =>
      cases hspot
      exact ⟨result, rfl, h⟩
  | cons position rest ih =>
      cases data with
      | array items =>
          obtain ⟨inner, hinner, hspot⟩ := Option.bind_eq_some_iff.1 hspot
          obtain ⟨reduced, rfl, hreduced⟩ := extract_array_eq_ok_iff.1 h
          obtain ⟨value, hvalue, hitem⟩ := exists_of_forall₂_getElem? hreduced hinner
          obtain ⟨kept, hkept, hextract⟩ := ih hitem hspot
          refine ⟨kept, ?_, ?_⟩
          · rw [element?, hvalue]
            exact hkept
          · rwa [List.length_cons, Function.iterate_succ_apply]
      | _ => cases hspot

end DeclaredApi.Json
