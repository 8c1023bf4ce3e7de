import DeclaredApi.Text.Blank

/-!
# `DeclaredApi.Template`: path templates

A path template is literal text with placeholders in braces. A brace that is never closed
is literal, and so is all that follows it. The name of a placeholder is what stands between
the braces without blanks at the ends; `placeholders` lists the names that are not empty.

A template is scanned once more when it is filled, in `DeclaredApi.Arguments.Parts`.
-/

set_option autoImplicit false

namespace DeclaredApi.Template

open Text

/-- What is left after a brace that was found is shorter than the text that it was found in. -/
theorem length_drop_lt_of_idxOf? {c : Char} {text : List Char} {place : Nat}
    (h : text.idxOf? c = some place) (before dropped : Nat) :
    ((text.drop before).drop (dropped + 1)).length < text.length := by
  have hpos : 0 < text.length := by
    cases text with
    | nil => cases h
    | cons => exact Nat.succ_pos _
  simp only [List.length_drop]
  omega

/-- The names that have been found, and those in the rest of a template. -/
def placeholdersFrom (names : List String) (rest : List Char) : List String :=
  match hOpen : rest.idxOf? '{' with
  | none => names
  | some start =>
    let after := rest.drop (start + 1)
    match after.idxOf? '}' with
    | none => names
    | some stop =>
      let name := String.ofList (trim (after.take stop))
      have : (after.drop (stop + 1)).length < rest.length :=
        length_drop_lt_of_idxOf? hOpen (start + 1) stop
      placeholdersFrom
        (if ¬ name.isEmpty ∧ ¬ names.contains name then names ++ [name] else names)
        (after.drop (stop + 1))
termination_by rest.length

/-- The names of the placeholders, each at its first place. -/
def placeholders (template : String) : List String :=
  placeholdersFrom [] template.toList

end DeclaredApi.Template
