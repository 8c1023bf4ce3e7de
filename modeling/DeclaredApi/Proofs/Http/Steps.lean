import DeclaredApi.Http.Target
import DeclaredApi.Proofs.Text.Percent

/-!
# `DeclaredApi.Proofs.Http.Steps`: which segments of a path are steps

A segment of a path is a step if it says to stay or to go up, with its dots encoded or not
(`step?`). `walk` takes the steps of a path whose segments may be of any kind, as long as it is
known which of them are steps, and `takeSteps` is that for texts (`takeSteps_eq_walk`). What
segments are but for being steps does not matter: `map_walk` says that they may be written in
another way, or filled in, before or after the steps are taken.

An encoded text is a step only if it is the encoded form of one dot or two (`step?_percentEncode`):
encoding leaves dots as they are, and no other byte is that of a dot.
-/

set_option autoImplicit false

namespace DeclaredApi.Http

/-- What a segment that is no name asks for. -/
inductive Step where
  | stay
  | up
deriving DecidableEq, Repr

/-- The step that a segment is, if it is one. -/
def step? (segment : List Char) : Option Step :=
  if plainDots segment = ['.'] then some .stay
  else if plainDots segment = ['.', '.'] then some .up
  else none

section Walk

variable {α β : Type}

/-- The segments before, the latest first, after a step. -/
def Step.take (before : List α) : Step → List α
  | .stay => before
  | .up => before.tail

/-- The segments of a path after its steps are taken, given those so far, the latest first. A step
at the end of the path leaves a blank segment there. -/
def walk (step? : α → Option Step) (blank : α) (before : List α) : List α → List α
  | [] => before.reverse
  | segment :: rest =>
    match step? segment with
    | none => walk step? blank (segment :: before) rest
    | some step =>
      if rest.isEmpty then (blank :: step.take before).reverse
      else walk step? blank (step.take before) rest

/-- Without steps every segment stays where it is. -/
theorem walk_of_no_step {step? : α → Option Step} {blank : α} {segments : List α}
    (h : ∀ segment ∈ segments, step? segment = none) (before : List α) :
    walk step? blank before segments = before.reverse ++ segments := by
  induction segments generalizing before with
  | nil => rw [walk, List.append_nil]
  | cons segment rest ih =>
      obtain ⟨hsegment, hrest⟩ := List.forall_mem_cons.mp h
      rw [walk, hsegment]
      show walk step? blank (segment :: before) rest = _
      rw [ih hrest, List.reverse_cons, List.append_assoc]
      rfl

/-- Segments may be changed before or after the steps are taken, if that changes no step. -/
theorem map_walk {step? : α → Option Step} {step?' : β → Option Step} {change : α → β} {blank : α}
    {segments : List α} (h : ∀ segment ∈ segments, step?' (change segment) = step? segment)
    (before : List α) :
    walk step?' (change blank) (before.map change) (segments.map change)
      = (walk step? blank before segments).map change := by
  induction segments generalizing before with
  | nil => rw [List.map_nil, walk, walk, List.map_reverse]
  | cons segment rest ih =>
      obtain ⟨hsegment, hrest⟩ := List.forall_mem_cons.mp h
      rw [List.map_cons, walk, walk, hsegment]
      cases step? segment with
      | none => exact ih hrest (segment :: before)
      | some step =>
          -- A step leaves the segments before or drops the latest of them, changed or not.
          have htake : step.take (before.map change) = (step.take before).map change := by
            cases step with
            | stay => rfl
            | up => exact List.map_tail.symm
          simp only [htake, List.isEmpty_map]
          split
          · rw [← List.map_cons, List.map_reverse]
          · exact ih hrest (step.take before)

end Walk

/-- Taking the steps of a path is a walk along its segments. -/
theorem takeSteps_eq_walk (before segments : List (List Char)) :
    takeSteps before segments = walk step? [] before segments := by
  induction segments generalizing before with
  | nil => rfl
  | cons segment rest ih =>
      rw [takeSteps, walk, step?]
      by_cases hstay : plainDots segment = ['.']
      · simp only [if_pos hstay, Step.take, ih]
      · by_cases hup : plainDots segment = ['.', '.']
        · simp only [if_neg hstay, if_pos hup, Step.take, ih]
        · simp only [if_neg hstay, if_neg hup, ih]

/-! ### Encoded texts -/

/-- Only a percent sign may begin an encoded dot. -/
theorem plainDots_cons_of_ne {c : Char} (hc : c ≠ '%') (rest : List Char) :
    plainDots (c :: rest) = c :: plainDots rest := by
  rw [plainDots]
  · rintro _ rfl
    exact absurd rfl hc
  · rintro _ rfl
    exact absurd rfl hc

/-- A dot has the same byte with and without encoding. -/
theorem percentBytes_plainDots {chars : List Char} (h : Text.PercentText chars) :
    Text.percentBytes (plainDots chars) = Text.percentBytes chars := by
  induction h with
  | nil => rfl
  | plain hc _ ih =>
      have hne := Text.ne_percent_of_isUnreserved hc
      rw [plainDots_cons_of_ne hne, Text.percentBytes_cons_of_ne hne,
        Text.percentBytes_cons_of_ne hne, ih]
  | @byte high low rest hhigh hlow _ ih =>
      obtain ⟨byte, hbyte⟩ := Text.exists_percentBytes_byte hhigh hlow
      by_cases hdot : high = '2' ∧ (low = 'e' ∨ low = 'E')
      · obtain ⟨rfl, rfl | rfl⟩ := hdot
        · exact congrArg (0x2E :: ·) ih
        · exact congrArg (0x2E :: ·) ih
      · -- The digits of another byte stay where they are.
        have hplain : plainDots ('%' :: high :: low :: rest)
            = '%' :: high :: low :: plainDots rest := by
          have hdigits := fun c hc => Text.ne_percent_of_isUnreserved
            (Text.isUnreserved_of_hexValue? (c := c) hc)
          rw [plainDots, plainDots_cons_of_ne (hdigits high hhigh),
            plainDots_cons_of_ne (hdigits low hlow)]
          · rintro _ - heq
            cases heq
            exact hdot ⟨rfl, Or.inl rfl⟩
          · rintro _ - heq
            cases heq
            exact hdot ⟨rfl, Or.inr rfl⟩
        rw [hplain, hbyte, hbyte, ih]

/-- An encoded text whose dots are those of another text stands for that text. -/
theorem eq_of_plainDots_percentEncode {s t : String}
    (h : plainDots (Text.percentEncode s).toList = (Text.percentEncode t).toList) : s = t := by
  have hbytes := percentBytes_plainDots (Text.percentText_percentEncode s)
  have hread := Text.percentDecode?_percentEncode s
  rw [Text.percentDecode?, ← hbytes, h] at hread
  exact Option.some.inj (hread.symm.trans (Text.percentDecode?_percentEncode t))

/-- An encoded text is a step exactly if it stands for one dot or for two. -/
theorem step?_percentEncode (s : String) :
    step? (Text.percentEncode s).toList
      = if s = "." then some .stay else if s = ".." then some .up else none := by
  have hdots : ∀ dots : String, plainDots (Text.percentEncode dots).toList = dots.toList →
      (Text.percentEncode dots).toList = dots.toList →
      (plainDots (Text.percentEncode s).toList = dots.toList ↔ s = dots) := by
    intro dots hplain hencoded
    constructor
    · intro h
      exact eq_of_plainDots_percentEncode (h.trans hencoded.symm)
    · rintro rfl
      exact hplain
  have hone := hdots "." rfl rfl
  have htwo := hdots ".." rfl rfl
  unfold step?
  exact if_congr hone rfl (if_congr htwo rfl rfl)

end DeclaredApi.Http
