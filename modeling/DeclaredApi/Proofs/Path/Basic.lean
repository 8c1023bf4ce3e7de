import DeclaredApi.Path.Basic
import DeclaredApi.Proofs.Text.Cut

/-!
# `DeclaredApi.Proofs.Path.Basic`: plain paths and their keys

A path is plain when the marker for every element does not occur in it. A plain path is not cut
anywhere, so it leads to one place (`route_of_plain`).

A step into an array has a position and a step into an object has a key, and a path may be
followed in a value where it meets arrays and in another where it meets objects.
`asPosition?_of_mem_steps` says that the key of a step tells its position: a key is read as one,
and a position that a path was read with has digits that are read as that position. So a path is
known by its `keys`, wherever it leads.
-/

set_option autoImplicit false

namespace DeclaredApi

namespace Path

open Text

/-! ### Plain paths -/

/-- The marker for every element does not occur in the path. -/
def Plain (path : List Char) : Prop :=
  ¬ wildcard <:+: path

instance (path : List Char) : Decidable (Plain path) :=
  inferInstanceAs (Decidable (¬ wildcard <:+: path))

variable {path : List Char}

/-- A path without a marker is no wildcard. -/
theorem Plain.isWildcard (h : Plain path) : isWildcard path = false :=
  holds_eq_false_iff.2 h

/-- A path with a marker is one. -/
theorem isWildcard_of_not_plain (h : ¬ Plain path) : isWildcard path = true := by
  cases hholds : isWildcard path with
  | true => rfl
  | false => exact absurd (holds_eq_false_iff.1 hholds) h

/-- The marker is at the start of the one that a dot follows. -/
theorem wildcard_prefix_wildcardDot : wildcard <+: wildcardDot :=
  ⟨['.'], rfl⟩

/-- No part of a path without markers has one. -/
theorem Plain.of_infix (h : Plain path) {part : List Char} (hpart : part <:+: path) : Plain part :=
  fun hmarker => h (hmarker.trans hpart)

/-- A marker in a path is one wherever it stands. -/
theorem not_plain_marked (head after : List Char) : ¬ Plain (head ++ wildcard ++ after) :=
  fun h => h (List.infix_append head wildcard after)

/-- There is no marker with a dot behind it to cut at. -/
theorem Plain.cut? (h : Plain path) : cut? wildcardDot path = none :=
  cut?_eq_none_iff.2 fun hdot => h (wildcard_prefix_wildcardDot.isInfix.trans hdot)

/-- Nor is there one at the end. -/
theorem Plain.dropEnding? (h : Plain path) : dropEnding? wildcard path = none := by
  cases hends : Text.dropEnding? wildcard path with
  | none => rfl
  | some head => exact absurd (infix_of_dropEnding? hends) h

/-- So a path without a marker is not split. -/
theorem Plain.splitWildcard? (h : Plain path) : splitWildcard? path = none := by
  rw [Path.splitWildcard?, h.cut?, h.dropEnding?]
  rfl

/-- A path leads to the steps before its first marker, and goes on from there. -/
theorem route_eq (path : List Char) :
    route path =
      match Path.splitWildcard? path with
      | some (head, some rest) => .each (steps head) (route rest)
      | some (head, none) => .each (steps head) (.place [])
      | none => .place (steps path) := by
  rw [route, Path.splitWildcard?]
  split
  · next head tail hcut => simp only [hcut]
  · next hcut =>
      simp only [hcut]
      cases Text.dropEnding? wildcard path <;> rfl

/-- A plain path leads to one place. -/
theorem route_of_plain (h : Plain path) : route path = .place (steps path) := by
  rw [route_eq, h.splitWildcard?]

/-! ### The keys of a path -/

/-- The digits of a position are read as that position, if it has 64 bits. -/
theorem position?_toDigits_eq (position : Nat) :
    position? (Nat.toDigits 10 position)
      = if position < 18446744073709551616 then some position else none := by
  have hdigit : ∀ c ∈ Nat.toDigits 10 position, c.isDigit = true := fun c hc =>
    Nat.isDigit_of_mem_toDigits (by decide) (by decide) hc
  have hne : Nat.toDigits 10 position ≠ [] := Nat.toDigits_ne_nil
  have hvalue : Nat.ofDigitChars 10 (Nat.toDigits 10 position) 0 = position :=
    Nat.ofDigitChars_ten_toDigits
  simp only [position?]
  split
  · next rest heq =>
      -- A sign is no digit.
      have hplus := hdigit '+' (heq ▸ List.mem_cons_self)
      exact absurd hplus (by decide)
  · rw [hvalue]
    simp only [hne, List.all_eq_true.2 hdigit, ne_eq, not_false_iff, true_and]

/-- A position is read back from its decimal. -/
theorem position?_toDigits {position : Nat} (h : position < 18446744073709551616) :
    position? (Nat.toDigits 10 position) = some position := by
  rw [position?_toDigits_eq, if_pos h]

/-- A position is read in 64 bits. -/
theorem lt_of_position? {text : List Char} {position : Nat} (h : position? text = some position) :
    position < 18446744073709551616 := by
  simp only [position?, Option.ite_none_right_eq_some, Option.some.injEq] at h
  obtain ⟨⟨-, -, hlt⟩, rfl⟩ := h
  exact hlt

/-- A position that is read fits into 64 bits. -/
theorem lt_of_mem_positions? {text : List Char} {found : List Nat}
    (h : positions? text = some found) : ∀ position ∈ found, position < 18446744073709551616 := by
  fun_induction positions? text generalizing found with
  | case1 =>
      cases h
      exact fun _ hmem => absurd hmem List.not_mem_nil
  | case2 rest hcut => cases h
  | case3 rest inner after hcut ih =>
      simp only [Option.bind_eq_bind, Option.bind_eq_some_iff] at h
      obtain ⟨first, hfirst, more, hmore, h⟩ := h
      cases h
      exact List.forall_mem_cons.2 ⟨lt_of_position? hfirst, ih hmore⟩
  | case4 => cases h

/-- The key of a step tells the position of the step. -/
theorem asPosition?_of_mem_partSteps {part : List Char} {step : Step}
    (h : step ∈ partSteps part) : step.asPosition? = position? step.asKey.toList := by
  cases step with
  | key name => rfl
  | index position =>
      have hlt : position < 18446744073709551616 := by
        simp only [partSteps] at h
        split at h
        · cases List.mem_singleton.1 h
        · next found hfound =>
            rcases List.mem_append.1 h with hname | hindex
            · split at hname
              · cases hname
              · cases List.mem_singleton.1 hname
            · obtain ⟨_, hmem, heq⟩ := List.mem_map.1 hindex
              cases heq
              exact lt_of_mem_positions? hfound position hmem
      rw [Step.asKey, String.toList_ofList, position?_toDigits hlt, Step.asPosition?]

/-- A step of a path leads to a position exactly if its key is read as one. -/
theorem asPosition?_of_mem_steps {step : Step} (h : step ∈ steps path) :
    step.asPosition? = position? step.asKey.toList := by
  obtain ⟨part, -, hpart⟩ := List.mem_flatMap.1 h
  exact asPosition?_of_mem_partSteps hpart

/-- The keys of the steps of a path. -/
def keys (path : List Char) : List String :=
  (steps path).map Step.asKey

end Path
end DeclaredApi
