import DeclaredApi.Proofs.Path.Place
import Mathlib.Data.List.Infix

/-!
# `DeclaredApi.Proofs.Path.Joined`: a path put behind another one

A path is text, and it is cut at its markers before its parts are read. Behind a plain path and a
dot, another path is cut where it is cut alone: no marker starts in the plain path and ends after
it, for a marker has no dot inside (`cut?_joined`, `dropEnding?_joined`). So what is read at a
joined path is read at its second part from what is at the first one (`get?_joined`).

A marker right behind a plain path is the first one of the whole, so the rest of the path is read
from every element of the array there (`get?_each`).
-/

set_option autoImplicit false

namespace DeclaredApi

/-! ### Cutting a text that was put together -/

namespace Text

variable {marker before head tail text : List Char}

/-- A cut passes over a text that no marker starts in. -/
theorem cut?_append
    (h : ∀ ending, ending ≠ [] → ending <:+ before → ¬ marker <+: ending ++ text) :
    cut? marker (before ++ text)
      = (cut? marker text).map fun pieces => (before ++ pieces.1, pieces.2) := by
  induction before with
  | nil => simp
  | cons c before ih =>
      have hhere : marker.isPrefixOf? (c :: (before ++ text)) = none := by
        rw [Option.eq_none_iff_forall_ne_some]
        intro after hafter
        exact h (c :: before) (List.cons_ne_nil _ _) List.suffix_rfl
          ⟨after, List.append_eq_of_isPrefixOf?_eq_some hafter⟩
      have hlater := ih fun ending hne hending =>
        h ending hne (hending.trans (List.suffix_cons c before))
      rw [List.cons_append, cut?, hhere, hlater]
      cases cut? marker text <;> rfl

/-- What follows a text does not move its first marker. -/
theorem cut?_append_of_some (h : cut? marker text = some (head, tail)) (rest : List Char) :
    cut? marker (text ++ rest) = some (head, tail ++ rest) := by
  induction text generalizing head with
  | nil =>
      rw [cut?] at h
      split at h
      · next hmarker =>
          cases h
          obtain rfl := List.isEmpty_iff.1 hmarker
          cases rest <;> rfl
      · cases h
  | cons c text ih =>
      rw [cut?] at h
      rw [List.cons_append, cut?]
      cases hhere : marker.isPrefixOf? (c :: text) with
      | some after =>
          rw [hhere] at h
          cases h
          have hstarts : marker.isPrefixOf? (c :: (text ++ rest)) = some (tail ++ rest) := by
            rw [List.isPrefixOf?_eq_some_iff_append_eq] at hhere ⊢
            rw [← List.append_assoc, hhere, List.cons_append]
          rw [hstarts]
      | none =>
          rw [hhere] at h
          obtain ⟨pieces, hcut, hpieces⟩ := Option.map_eq_some_iff.1 h
          cases hpieces
          -- The marker has room in `text`, so it cannot start before it and end after it.
          have hlater : marker.isPrefixOf? (c :: (text ++ rest)) = none := by
            rw [Option.eq_none_iff_forall_ne_some] at hhere ⊢
            intro after hafter
            have hstarts : marker <+: c :: text ++ rest :=
              ⟨after, List.append_eq_of_isPrefixOf?_eq_some hafter⟩
            have hlength : marker.length ≤ (c :: text).length :=
              Nat.le_succ_of_le (Nat.le_of_add_left_le (length_after_cut? hcut))
            obtain ⟨after', hafter'⟩ :=
              List.prefix_of_prefix_length_le hstarts (List.prefix_append _ _) hlength
            exact hhere after' (List.isPrefixOf?_eq_some_iff_append_eq.2 hafter')
          rw [hlater, ih hcut]
          rfl

/-- An ending is dropped exactly from a text that has it. -/
theorem dropEnding?_eq_some_iff {ending : List Char} :
    dropEnding? ending text = some head ↔ text = head ++ ending := by
  rw [dropEnding?, Option.map_eq_some_iff]
  constructor
  · rintro ⟨start, hstart, rfl⟩
    have htext := List.append_eq_of_isPrefixOf?_eq_some hstart
    rw [← List.reverse_reverse text, ← htext, List.reverse_append, List.reverse_reverse]
  · rintro rfl
    refine ⟨head.reverse, ?_, List.reverse_reverse head⟩
    rw [List.isPrefixOf?_eq_some_iff_append_eq, List.reverse_append]

end Text

/-! ### Joined paths -/

namespace Path

open Text

variable {path : List Char}

/-- No marker starts in a plain path and goes on in what follows, unless that goes on with a
character of the marker other than its first. -/
theorem Plain.not_starts (h : Plain path) {next : Char} (hstar : next ≠ '*') (hclose : next ≠ ']')
    {ending : List Char} (hne : ending ≠ []) (hending : ending <:+ path) (text : List Char) :
    ¬ wildcard <+: ending ++ next :: text := by
  intro hstarts
  match ending with
  | [] => exact hne rfl
  | [_] =>
      have hsecond := (List.cons_prefix_cons.1 (List.cons_prefix_cons.1 hstarts).2).1
      exact hstar hsecond.symm
  | [_, _] =>
      have hthird := (List.cons_prefix_cons.1
        (List.cons_prefix_cons.1 (List.cons_prefix_cons.1 hstarts).2).2).1
      exact hclose hthird.symm
  | first :: second :: third :: rest =>
      have hinside : wildcard <+: first :: second :: third :: rest :=
        List.prefix_of_prefix_length_le hstarts (List.prefix_append _ _) (by simp [wildcard])
      exact h (hinside.isInfix.trans hending.isInfix)

/-- Behind a plain path, a text is cut where it is cut alone. -/
theorem Plain.cut?_append (h : Plain path) {next : Char} (hstar : next ≠ '*')
    (hclose : next ≠ ']') (text : List Char) :
    Text.cut? wildcardDot (path ++ next :: text)
      = (Text.cut? wildcardDot (next :: text)).map fun pieces => (path ++ pieces.1, pieces.2) := by
  refine Text.cut?_append fun ending hne hending hstarts => ?_
  exact h.not_starts hstar hclose hne hending text (wildcard_prefix_wildcardDot.trans hstarts)

/-- A marker behind a plain path is the first one. -/
theorem Plain.cut?_each (h : Plain path) (rest : List Char) :
    Text.cut? wildcardDot (path ++ wildcardDot ++ rest) = some (path, rest) := by
  have hstarts : Text.cut? wildcardDot (wildcardDot ++ rest) = some ([], rest) := rfl
  have hcut := h.cut?_append (by decide : '[' ≠ '*') (by decide) (['*', ']', '.'] ++ rest)
  rw [List.append_assoc]
  refine hcut.trans ?_
  show (Text.cut? wildcardDot (wildcardDot ++ rest)).map _ = _
  rw [hstarts, Option.map_some, List.append_nil]

/-- Behind a plain path and a dot, a path is cut where it is cut alone. -/
theorem Plain.cut?_joined (h : Plain path) (rest : List Char) :
    Text.cut? wildcardDot (path ++ '.' :: rest)
      = (Text.cut? wildcardDot rest).map fun pieces => (path ++ '.' :: pieces.1, pieces.2) := by
  have hdot : Text.cut? wildcardDot ('.' :: rest)
      = (Text.cut? wildcardDot rest).map fun pieces => ('.' :: pieces.1, pieces.2) := rfl
  rw [h.cut?_append (by decide) (by decide), hdot, Option.map_map]
  rfl

/-- Behind another path and a dot, a path ends in a marker if it does so alone. -/
theorem dropEnding?_joined (path rest : List Char) :
    Text.dropEnding? wildcard (path ++ '.' :: rest)
      = (Text.dropEnding? wildcard rest).map fun head => path ++ '.' :: head := by
  refine Option.ext fun head => ?_
  simp only [dropEnding?_eq_some_iff, Option.map_eq_some_iff]
  constructor
  · intro h
    rcases List.append_eq_append_iff.1 h with ⟨more, rfl, hrest⟩ | ⟨more, -, hmarker⟩
    · cases more with
      | nil => cases hrest
      | cons c more =>
          obtain ⟨rfl, rfl⟩ := List.cons.inj hrest
          exact ⟨more, rfl, rfl⟩
    · -- The dot would be inside the marker.
      have hdot : '.' ∈ wildcard := hmarker ▸ by simp
      exact absurd hdot (by decide)
  · rintro ⟨inner, rfl, rfl⟩
    simp

/-- A path is split in its second part if its first one has no marker. -/
theorem Plain.splitWildcard?_joined (h : Plain path) (rest : List Char) :
    Path.splitWildcard? (path ++ '.' :: rest)
      = (Path.splitWildcard? rest).map fun pieces => (path ++ '.' :: pieces.1, pieces.2) := by
  rw [Path.splitWildcard?, Path.splitWildcard?, h.cut?_joined, dropEnding?_joined]
  cases Text.cut? wildcardDot rest with
  | some pieces => rfl
  | none => cases Text.dropEnding? wildcard rest <;> rfl

/-- Two paths without markers are joined to one without markers. -/
theorem plain_joined {rest : List Char} (h : Plain path) (hrest : Plain rest) :
    Plain (path ++ '.' :: rest) := by
  rw [Plain, List.infix_append_iff, List.infix_cons_iff]
  rintro (hpath | (hdot | hinside) | ⟨start, ending, hsplit, hstart, hending⟩)
  · exact h hpath
  · exact absurd (List.cons_prefix_cons.1 hdot).1 (by decide)
  · exact hrest hinside
  · cases ending with
    | nil =>
        rw [List.append_nil] at hsplit
        exact h (hsplit ▸ hstart.isInfix)
    | cons c ending =>
        -- The dot would be inside the marker.
        obtain rfl := (List.cons_prefix_cons.1 hending).1
        have hdot : '.' ∈ wildcard := hsplit ▸ by simp
        exact absurd hdot (by decide)

/-- The steps of a joined path are those of its two parts. -/
theorem steps_joined (path rest : List Char) :
    steps (path ++ '.' :: rest) = steps path ++ steps rest := by
  rw [steps, List.splitOn_append_cons_self, List.filter_append, List.flatMap_append]
  rfl

/-- The way that goes down some steps first. -/
def Route.prepend (above : List Step) : Route → Route
  | .place steps => .place (above ++ steps)
  | .each steps rest => .each (above ++ steps) rest

/-- A path with a marker goes to the elements of the array that its first part leads to. -/
theorem route_each (h : Plain path) (rest : List Char) :
    route (path ++ wildcardDot ++ rest) = .each (steps path) (route rest) := by
  rw [route_eq, Path.splitWildcard?, h.cut?_each]

/-- A joined path leads down its first part and on by its second one. -/
theorem route_joined (h : Plain path) (rest : List Char) :
    route (path ++ '.' :: rest) = (route rest).prepend (steps path) := by
  rw [route_eq, route_eq rest, h.splitWildcard?_joined]
  match Path.splitWildcard? rest with
  | some (head, some tail) => simp only [Option.map_some, steps_joined, Route.prepend]
  | some (head, none) => simp only [Option.map_some, steps_joined, Route.prepend]
  | none => simp only [Option.map_none, steps_joined, Route.prepend]

end Path

/-! ### Reading at joined paths -/

namespace Json

open DeclaredApi.Path (Route Step)

variable {path : List Char}

/-- A way that goes down some steps first is followed from the value they lead to. -/
theorem follow?_prepend (root : Json) (above : List Step) (route : Route) :
    root.follow? (route.prepend above) = root.getAt? above >>= follow? route := by
  cases route with
  | place steps => exact getAt?_append root above steps
  | each steps rest =>
      rw [Route.prepend, follow?, getAt?_append]
      cases root.getAt? above <;> rfl

/-- A path without a marker is read at its steps. -/
theorem get?_eq_getAt? (h : Path.Plain path) (root : Json) :
    root.get? path = root.getAt? (Path.steps path) := by
  rw [get?, Path.route_of_plain h, follow?]

/-- A joined path is read at its second part, from what is at the first one. -/
theorem get?_joined (h : Path.Plain path) (root : Json) (rest : List Char) :
    root.get? (path ++ '.' :: rest) = root.get? path >>= (get? · rest) := by
  rw [get?, Path.route_joined h, follow?_prepend, get?_eq_getAt? h]
  rfl

/-- Behind a marker a path is read from every element. -/
theorem get?_each (h : Path.Plain path) (root : Json) (rest : List Char) :
    root.get? (path ++ Path.wildcardDot ++ rest) =
      match root.get? path with
      | some (.array items) => some (.array (items.map fun item => (item.get? rest).getD .null))
      | _ => none := by
  rw [get?, Path.route_each h, follow?, get?_eq_getAt? h]
  rfl

end Json
end DeclaredApi
