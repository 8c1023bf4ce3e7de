/-!
# `DeclaredApi.Text.Cut`: cutting a text at a marker

`cut? marker text` finds the first occurrence of `marker` and returns what stands before
and after it. Wildcard markers in field paths and braces in path templates are found with
it. `cut?_eq_some_imp` says that nothing is lost, and the length lemmas bound the recursions
that go on with the text after the marker.
-/

set_option autoImplicit false

namespace DeclaredApi.Text

/-- The text before the first occurrence of `marker`, and the text after it. -/
def cut? (marker : List Char) : List Char → Option (List Char × List Char)
  | [] => if marker.isEmpty then some ([], []) else none
  | c :: rest =>
    match marker.isPrefixOf? (c :: rest) with
    | some after => some ([], after)
    | none => (cut? marker rest).map fun (before, after) => (c :: before, after)

/-- Whether `marker` occurs in the text. -/
def holds (marker text : List Char) : Bool :=
  (cut? marker text).isSome

/-- The text without the `ending` it ends with. -/
def dropEnding? (ending text : List Char) : Option (List Char) :=
  (ending.reverse.isPrefixOf? text.reverse).map List.reverse

theorem eq_append_of_isPrefixOf? {marker text after : List Char}
    (h : marker.isPrefixOf? text = some after) : text = marker ++ after := by
  induction marker generalizing text with
  | nil =>
      change some text = some after at h
      simpa using h
  | cons c marker ih =>
      cases text with
      | nil =>
          change none = some after at h
          simp at h
      | cons d text =>
          change (if c == d then marker.isPrefixOf? text else none) = some after at h
          split at h
          · next hcd => simp [ih h, beq_iff_eq.mp hcd]
          · simp at h

/-- A cut loses nothing: the text is its two pieces with the marker between them. -/
theorem cut?_eq_some_imp {marker text before after : List Char}
    (h : cut? marker text = some (before, after)) : text = before ++ marker ++ after := by
  induction text generalizing before with
  | nil =>
      simp only [cut?] at h
      split at h
      · next hm => simp_all
      · simp at h
  | cons c rest ih =>
      simp only [cut?] at h
      split at h
      · next hp =>
          simp only [Option.some.injEq, Prod.mk.injEq] at h
          obtain ⟨rfl, rfl⟩ := h
          simpa using eq_append_of_isPrefixOf? hp
      · obtain ⟨⟨b, a⟩, hb, he⟩ := Option.map_eq_some_iff.1 h
        simp only [Prod.mk.injEq] at he
        obtain ⟨rfl, rfl⟩ := he
        simp [ih hb]

/-- What follows a marker is shorter than the text by at least the marker. -/
theorem length_after_cut? {marker text before after : List Char}
    (h : cut? marker text = some (before, after)) :
    after.length + marker.length ≤ text.length := by
  rw [cut?_eq_some_imp h]
  simp only [List.length_append]
  omega

/-- What follows a marker is shorter than the text. -/
theorem length_lt_of_cut? {marker text before after : List Char} (hm : marker ≠ [])
    (h : cut? marker text = some (before, after)) : after.length < text.length := by
  have hle := length_after_cut? h
  have hpos := List.length_pos_iff.mpr hm
  omega

end DeclaredApi.Text
