import DeclaredApi.Text.Cut
import Mathlib.Data.List.Infix

/-!
# `DeclaredApi.Proofs.Text.Cut`: where a text is cut

A text is cut at the first place of a marker, and it is cut at all exactly where the marker occurs
in it (`cut?_eq_none_iff`). For a marker of one character the place is told by what stands before
it: everything up to there is free of that character (`cut?_char_eq_some_iff`).
-/

set_option autoImplicit false

namespace DeclaredApi.Text

/-- A text is not cut exactly where the marker does not occur in it. -/
theorem cut?_eq_none_iff {marker text : List Char} :
    cut? marker text = none ↔ ¬ marker <:+: text := by
  induction text with
  | nil => cases marker <;> simp [cut?]
  | cons c rest ih =>
      rw [cut?, List.infix_cons_iff]
      cases hprefix : marker.isPrefixOf? (c :: rest) with
      | some after =>
          have hmarker : marker <+: c :: rest :=
            ⟨after, List.append_eq_of_isPrefixOf?_eq_some hprefix⟩
          simp [hmarker]
      | none =>
          have hmarker : ¬ marker <+: c :: rest := by
            rintro ⟨after, hafter⟩
            rw [List.isPrefixOf?_eq_some_iff_append_eq.2 hafter] at hprefix
            cases hprefix
          simp [hmarker, ih]

/-- A text is cut at the first place of a character. -/
theorem cut?_char_eq_some_iff {c : Char} {text before after : List Char} :
    cut? [c] text = some (before, after) ↔ c ∉ before ∧ text = before ++ c :: after := by
  have hcut : ∀ before after : List Char, c ∉ before →
      cut? [c] (before ++ c :: after) = some (before, after) := by
    intro before after hbefore
    induction before with
    | nil => simp [cut?, List.isPrefixOf?]
    | cons d before ih =>
        rw [List.mem_cons, not_or] at hbefore
        simp [cut?, List.isPrefixOf?, hbefore.1, ih hbefore.2]
  constructor
  · intro h
    have htext : text = before ++ c :: after := by simpa using cut?_eq_some_imp h
    refine ⟨fun hmem => ?_, htext⟩
    -- An earlier place of the character would be where the text is cut.
    obtain ⟨earlier, rest, rfl, hearlier⟩ := List.eq_append_cons_of_mem hmem
    rw [htext, List.append_assoc, List.cons_append, hcut earlier _ hearlier] at h
    have hlengths := congrArg List.length (Prod.mk.inj (Option.some.inj h)).1
    simp at hlengths
  · rintro ⟨hbefore, rfl⟩
    exact hcut before after hbefore

/-- The first place of a character, told by what stands before it. -/
theorem idxOf?_eq_some_iff_append {c : Char} {text : List Char} {place : Nat} :
    text.idxOf? c = some place ↔
      ∃ before after, c ∉ before ∧ text = before ++ c :: after ∧ place = before.length := by
  induction text generalizing place with
  | nil => simp
  | cons d rest ih =>
      rw [List.idxOf?_cons]
      by_cases hd : d = c
      · subst hd
        constructor
        · intro h
          obtain rfl : 0 = place := by simpa using h
          exact ⟨[], rest, by simp, rfl, rfl⟩
        · rintro ⟨before, after, hbefore, htext, rfl⟩
          cases before with
          | nil => simp
          | cons e before =>
              obtain ⟨rfl, -⟩ := List.cons.inj htext
              simp at hbefore
      · -- The first character is another one, so it stands before the place.
        rw [if_neg (by simpa using hd), Option.map_eq_some_iff]
        constructor
        · rintro ⟨inner, hinner, rfl⟩
          obtain ⟨before, after, hbefore, rfl, rfl⟩ := ih.mp hinner
          exact ⟨d :: before, after, by simp [Ne.symm hd, hbefore], rfl, rfl⟩
        · rintro ⟨before, after, hbefore, htext, rfl⟩
          cases before with
          | nil => exact absurd (List.cons.inj htext).1 hd
          | cons e before =>
              obtain ⟨rfl, rfl⟩ := List.cons.inj htext
              have hinner : c ∉ before := fun hmem => hbefore (List.mem_cons_of_mem _ hmem)
              exact ⟨before.length, ih.mpr ⟨before, after, hinner, rfl, rfl⟩, rfl⟩

/-- A text cannot be cut at a character that is not in it. -/
theorem cut?_char_eq_none_iff {c : Char} {text : List Char} :
    cut? [c] text = none ↔ c ∉ text := by
  rw [cut?_eq_none_iff, List.singleton_infix_iff]

/-- A text does not hold a marker exactly if no part of it is the marker. -/
theorem holds_eq_false_iff {marker text : List Char} :
    holds marker text = false ↔ ¬ marker <:+: text := by
  rw [holds, Option.isSome_eq_false_iff, Option.isNone_iff_eq_none, cut?_eq_none_iff]

/-- What a text ends with occurs in it. -/
theorem infix_of_dropEnding? {ending text head : List Char}
    (h : dropEnding? ending text = some head) : ending <:+: text := by
  obtain ⟨before, hprefix, -⟩ := Option.map_eq_some_iff.1 h
  have hends : ending.reverse <+: text.reverse :=
    ⟨before, List.append_eq_of_isPrefixOf?_eq_some hprefix⟩
  exact (List.reverse_prefix.1 hends).isInfix

end DeclaredApi.Text
