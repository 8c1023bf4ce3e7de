import DeclaredApi.Proofs.Path.Projection

/-!
# `DeclaredApi.Proofs.Path.Markers`: the markers of a path and what follows them

Markers do not overlap, so what is said of all markers of a path is said of its first one and of
what is behind that one (`markersFollowedBy_marked`). A first marker is one behind a plain path
(`exists_first_marker`, `Plain.eq_or_behind`).

`splitWildcard?` does not look for the first marker, but for the first one that a dot follows, and
if there is none, for one at the end of the path. Three lemmas say what becomes of the first marker:
the path is split there if a dot follows it (`Plain.splitWildcard?_each`) or nothing does
(`Plain.splitWildcard?_ending`), and with a bracket behind it the marker is passed over
(`Plain.splitWildcard?_skipped`).

A marker that is passed over goes into a key: no key of a plain path has a marker in it
(`Plain.of_mem_steps`), and some key of any other path has (`exists_marked_step`).
-/

set_option autoImplicit false

namespace DeclaredApi.Path

open Text

variable {path head after : List Char} {next : Option Char → Prop}

/-! ### Markers and what follows them -/

/-- Behind every marker of the path is what `next` says: the character there, or none at the end of
the path. -/
def MarkersFollowedBy (next : Option Char → Prop) (path : List Char) : Prop :=
  ∀ head after, path = head ++ wildcard ++ after → next after.head?

/-- Every marker of the path is followed by a dot, an opening bracket or the end. -/
def Delimited (path : List Char) : Prop :=
  MarkersFollowedBy (· ∈ [none, some '.', some '[']) path

/-- No marker of the path is followed by an opening bracket. -/
def Spaced (path : List Char) : Prop :=
  MarkersFollowedBy (· ≠ some '[') path

/-- The markers of a path are at the start of some of its endings. -/
theorem markersFollowedBy_iff_tails :
    MarkersFollowedBy next path ↔
      ∀ ending ∈ path.tails, wildcard <+: ending → next (ending.drop wildcard.length).head? := by
  constructor
  · rintro h ending hending ⟨after, rfl⟩
    obtain ⟨head, rfl⟩ := (List.mem_tails _ _).1 hending
    rw [List.drop_left]
    exact h head after (List.append_assoc _ _ _).symm
  · rintro h head after rfl
    have hending : wildcard ++ after ∈ (head ++ wildcard ++ after).tails :=
      (List.mem_tails _ _).2 ⟨head, (List.append_assoc _ _ _).symm⟩
    have hnext := h _ hending (List.prefix_append _ _)
    rwa [List.drop_left] at hnext

instance [DecidablePred next] : Decidable (MarkersFollowedBy next path) :=
  decidable_of_iff _ markersFollowedBy_iff_tails.symm

instance : Decidable (Delimited path) :=
  inferInstanceAs (Decidable (MarkersFollowedBy _ path))

instance : Decidable (Spaced path) :=
  inferInstanceAs (Decidable (MarkersFollowedBy _ path))

/-- Without markers there is nothing to say about what follows them. -/
theorem Plain.markersFollowedBy (h : Plain path) : MarkersFollowedBy next path := by
  rintro head after rfl
  exact absurd h (not_plain_marked head after)

/-- A marker behind a plain path is the first one: any other one is behind it, and does not
overlap it. -/
theorem Plain.eq_or_behind (h : Plain head) {head' after' : List Char}
    (heq : head ++ wildcard ++ after = head' ++ wildcard ++ after') :
    (head' = head ∧ after' = after) ∨
      ∃ between, head' = head ++ wildcard ++ between ∧ after = between ++ wildcard ++ after' := by
  rw [List.append_assoc, List.append_assoc] at heq
  rcases List.append_eq_append_iff.1 heq with ⟨more, rfl, hmore⟩ | ⟨more, rfl, hmore⟩
  · -- Of the characters of the marker only the first one can start a marker.
    match more with
    | [] => exact .inl ⟨List.append_nil head, (List.append_cancel_left hmore).symm⟩
    | [_] => cases hmore
    | [_, _] => cases hmore
    | _ :: _ :: _ :: between =>
        cases hmore
        exact .inr ⟨between, (List.append_assoc head wildcard between).symm,
          (List.append_assoc between wildcard after').symm⟩
  · by_cases hnil : more = []
    · subst hnil
      exact .inl ⟨(List.append_nil head').symm, List.append_cancel_left hmore⟩
    · -- A marker that starts earlier would start in the plain path.
      exact absurd ⟨after', hmore⟩
        (h.not_starts (by decide : '[' ≠ '*') (by decide) hnil (List.suffix_append _ _) _)

/-- What follows the first marker and what follows the others can be said one by one. -/
theorem markersFollowedBy_marked (h : Plain head) :
    MarkersFollowedBy next (head ++ wildcard ++ after) ↔
      next after.head? ∧ MarkersFollowedBy next after := by
  constructor
  · intro hall
    refine ⟨hall head after rfl, ?_⟩
    rintro between after' rfl
    refine hall (head ++ wildcard ++ between) after' ?_
    simp only [List.append_assoc]
  · rintro ⟨hfirst, hrest⟩ head' after' heq
    rcases h.eq_or_behind heq with ⟨-, rfl⟩ | ⟨between, -, hbehind⟩
    · exact hfirst
    · exact hrest between after' hbehind

/-- A path with a marker has a first one. -/
theorem exists_first_marker (head after : List Char) :
    ∃ first rest, Plain first ∧ head ++ wildcard ++ after = first ++ wildcard ++ rest := by
  by_cases h : Plain head
  · exact ⟨head, after, h, rfl⟩
  · -- The text before this marker has another one, and that is nearer to the start.
    obtain ⟨before, between, hhead⟩ := not_not.1 h
    have hlt : before.length < head.length := by
      rw [← hhead]
      simp [wildcard]
    obtain ⟨first, rest, hfirst, heq⟩ :=
      exists_first_marker before (between ++ wildcard ++ after)
    refine ⟨first, rest, hfirst, ?_⟩
    rw [← heq, ← hhead]
    simp only [List.append_assoc]
termination_by head.length

/-- Without a bracket, a dot is behind a marker or nothing is. -/
theorem Delimited.dot_or_end (h : Delimited path) (hpath : path = head ++ wildcard ++ after)
    (hopen : after.head? ≠ some '[') : after.head? ∈ [none, some '.'] := by
  simpa [hopen] using h head after hpath

/-! ### Splitting at the first marker -/

/-- A path is split at its first marker if a dot follows that. -/
theorem Plain.splitWildcard?_each (h : Plain head) (rest : List Char) :
    Path.splitWildcard? (head ++ wildcard ++ '.' :: rest) = some (head, some rest) := by
  have hcut : Text.cut? wildcardDot (head ++ wildcard ++ '.' :: rest) = some (head, rest) := by
    have hdot := h.cut?_each rest
    rwa [List.append_assoc] at hdot ⊢
  rw [Path.splitWildcard?, hcut]

/-- A path is split at its first marker if the path ends there. -/
theorem Plain.splitWildcard?_ending (h : Plain head) :
    Path.splitWildcard? (head ++ wildcard) = some (head, none) := by
  have hcut : Text.cut? wildcardDot (head ++ wildcard) = none :=
    h.cut?_append (by decide) (by decide) ['*', ']']
  have hends : Text.dropEnding? wildcard (head ++ wildcard) = some head :=
    dropEnding?_eq_some_iff.2 rfl
  rw [Path.splitWildcard?, hcut, hends]
  rfl

/-- Behind a marker and a bracket, a path ends in a marker if what starts with the bracket does. -/
theorem dropEnding?_skipped (head rest : List Char) :
    Text.dropEnding? wildcard (head ++ wildcard ++ '[' :: rest)
      = (Text.dropEnding? wildcard ('[' :: rest)).map (head ++ wildcard ++ ·) := by
  refine Option.ext fun before => ?_
  simp only [dropEnding?_eq_some_iff, Option.map_eq_some_iff]
  constructor
  · intro h
    rcases List.append_eq_append_iff.1 h with ⟨more, rfl, hrest⟩ | ⟨more, hbefore, hmarker⟩
    · exact ⟨more, hrest, rfl⟩
    · -- The bracket is in the last marker, so it is the start of it.
      match more with
      | [] => exact ⟨[], hmarker.symm, by rw [hbefore, List.append_nil, List.append_nil]⟩
      | [_] => cases hmarker
      | [_, _] => cases hmarker
      | _ :: _ :: _ :: more =>
          have hlength := congrArg List.length hmarker
          simp [wildcard] at hlength
  · rintro ⟨inner, hinner, rfl⟩
    rw [hinner, List.append_assoc (head ++ wildcard)]

/-- A path is not split at its first marker if a bracket follows that, but where it is split behind
the marker. -/
theorem Plain.splitWildcard?_skipped (h : Plain head) (rest : List Char) :
    Path.splitWildcard? (head ++ wildcard ++ '[' :: rest)
      = (Path.splitWildcard? ('[' :: rest)).map fun pieces =>
          (head ++ wildcard ++ pieces.1, pieces.2) := by
  have hcut : Text.cut? wildcardDot (head ++ wildcard ++ '[' :: rest)
      = (Text.cut? wildcardDot ('[' :: rest)).map fun pieces =>
          (head ++ wildcard ++ pieces.1, pieces.2) := by
    rw [List.append_assoc]
    refine (h.cut?_append (by decide : '[' ≠ '*') (by decide) (['*', ']'] ++ '[' :: rest)).trans ?_
    -- The marker is passed over character by character.
    show Option.map _ (Option.map _ (Option.map _ (Option.map _
      (Text.cut? wildcardDot ('[' :: rest))))) = _
    rw [Option.map_map, Option.map_map, Option.map_map]
    refine congrArg (Option.map · _) (funext fun pieces => ?_)
    simp [wildcard]
  rw [Path.splitWildcard?, Path.splitWildcard?, hcut, dropEnding?_skipped]
  cases Text.cut? wildcardDot ('[' :: rest) with
  | some pieces => rfl
  | none => cases Text.dropEnding? wildcard ('[' :: rest) <;> rfl

/-- A path is split at its first marker if a dot follows that or nothing does. -/
theorem Plain.exists_splitWildcard? (h : Plain head) (hafter : after.head? ∈ [none, some '.']) :
    ∃ tail, Path.splitWildcard? (head ++ wildcard ++ after) = some (head, tail) := by
  match after with
  | [] =>
      rw [List.append_nil]
      exact ⟨none, h.splitWildcard?_ending⟩
  | c :: rest =>
      obtain rfl : c = '.' := by simpa using hafter
      exact ⟨some rest, h.splitWildcard?_each rest⟩

/-- A path leads to the steps before its first marker and on along what is behind it, if a dot
follows the marker or nothing does. -/
theorem Plain.route_marked (h : Plain head) (hafter : after.head? ∈ [none, some '.']) :
    route (head ++ wildcard ++ after) = .each (steps head) (route after) := by
  rw [route_eq]
  match after with
  | [] =>
      rw [List.append_nil, h.splitWildcard?_ending, route_of_plain (by decide)]
      rfl
  | c :: rest =>
      obtain rfl : c = '.' := by simpa using hafter
      have hempty : Plain [] := by decide
      have hroute : route ('.' :: rest) = (route rest).prepend (steps []) :=
        route_joined hempty rest
      have hsame : (route rest).prepend (steps []) = route rest := by
        cases route rest <;> rfl
      rw [h.splitWildcard?_each, hroute, hsame]

/-! ### Markers in keys -/

/-- A decimal has no marker. -/
theorem plain_toDigits (position : Nat) : Plain (Nat.toDigits 10 position) := by
  intro hmarker
  have hstar := Nat.isDigit_of_mem_toDigits (by decide) (by decide)
    (hmarker.subset (by decide : '*' ∈ wildcard))
  exact absurd hstar (by decide)

/-- A key with a marker names no position. -/
theorem asPosition?_of_not_plain {step : Step} (h : ¬ Plain step.asKey.toList) :
    step.asPosition? = none := by
  cases step with
  | key name =>
      by_contra hsome
      obtain ⟨position, hposition⟩ := Option.ne_none_iff_exists'.1 hsome
      have hstar : '*' ∉ name.toList := not_mem_of_position? hposition (by decide) (by decide)
      exact h fun hmarker => hstar (hmarker.subset (by decide))
  | index position =>
      rw [Step.asKey, String.toList_ofList] at h
      exact absurd (plain_toDigits position) h

/-- The steps of a part without a marker have none in their keys. -/
theorem Plain.of_mem_partSteps {part : List Char} (h : Plain part) {step : Step}
    (hstep : step ∈ partSteps part) : Plain step.asKey.toList := by
  rw [partSteps] at hstep
  split at hstep
  · obtain rfl := List.mem_singleton.1 hstep
    rwa [Step.asKey, String.toList_ofList]
  · rcases List.mem_append.1 hstep with hname | hindex
    · split at hname
      · cases hname
      · obtain rfl := List.mem_singleton.1 hname
        rw [Step.asKey, String.toList_ofList]
        exact h.of_infix (List.takeWhile_prefix _).isInfix
    · obtain ⟨position, -, rfl⟩ := List.mem_map.1 hindex
      rw [Step.asKey, String.toList_ofList]
      exact plain_toDigits position

/-- A part with a marker is a key as it stands, for a marker is no position. -/
theorem partSteps_of_not_plain {part : List Char} (h : ¬ Plain part) :
    partSteps part = [.key (String.ofList part)] := by
  have hnone : positions? (part.dropWhile (· != '[')) = none := by
    by_contra hsome
    exact h (isIndexed_iff.2 (Option.ne_none_iff_exists'.1 hsome)).plain
  simp only [partSteps, hnone]

/-- The steps of a path without a marker have none in their keys. -/
theorem Plain.of_mem_steps (h : Plain path) : ∀ step ∈ steps path, Plain step.asKey.toList := by
  induction path using inductionOnParts with
  | last part hdot =>
      rw [steps_of_part hdot]
      exact fun _ => h.of_mem_partSteps
  | next part rest hdot ih =>
      have hpart : Plain part := h.of_infix (List.prefix_append _ _).isInfix
      have hrest : Plain rest :=
        h.of_infix ((List.suffix_cons _ _).trans (List.suffix_append _ _)).isInfix
      rw [steps_joined, steps_of_part hdot]
      exact List.forall_mem_append.2 ⟨fun _ => hpart.of_mem_partSteps, ih hrest⟩

/-- A marker in a path is in the key of one of its steps. -/
theorem exists_marked_step (h : ¬ Plain path) :
    ∃ step ∈ steps path, ¬ Plain step.asKey.toList := by
  have hwhole : ∀ part : List Char, ¬ Plain part →
      ∃ step ∈ partSteps part, ¬ Plain step.asKey.toList := by
    intro part hpart
    rw [partSteps_of_not_plain hpart]
    exact ⟨_, List.mem_singleton_self _, by rwa [Step.asKey, String.toList_ofList]⟩
  induction path using inductionOnParts with
  | last part hdot =>
      rw [steps_of_part hdot]
      exact hwhole part h
  | next part rest hdot ih =>
      rw [steps_joined, steps_of_part hdot]
      by_cases hpart : Plain part
      · obtain ⟨step, hstep, hmarked⟩ := ih fun hrest => h (plain_joined hpart hrest)
        exact ⟨step, List.mem_append_right _ hstep, hmarked⟩
      · obtain ⟨step, hstep, hmarked⟩ := hwhole part hpart
        exact ⟨step, List.mem_append_left _ hstep, hmarked⟩

end DeclaredApi.Path
