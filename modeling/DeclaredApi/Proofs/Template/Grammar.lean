import DeclaredApi.Proofs.Text.Cut
import DeclaredApi.Text.Blank

/-!
# `DeclaredApi.Proofs.Template.Grammar`: what a template says

A template is read from the left. Up to the first opening brace it is literal, the braces with the
closing one that comes next hold a placeholder, and what follows is read in the same way. Where no
pair of braces is left, all is literal, unmatched braces included. `Reads` says this without a
search, and every template is read in one way only, which is the way `pieces` finds (`reads_iff`).

Neither of the two scanners of the library knows of pieces. `DeclaredApi.Proofs.Template` proves
for each of them what it makes of a template that is read as certain pieces.
-/

set_option autoImplicit false

namespace DeclaredApi.Template

open Text

/-! ### Pieces -/

/-- A piece of a template. -/
inductive Piece where
  | literal (text : List Char)
  | placeholder (name : List Char)
deriving DecidableEq, Repr

/-- The pieces of a template. -/
def pieces (template : List Char) : List Piece :=
  match hOpen : cut? ['{'] template with
  | none => [.literal template]
  | some (before, opened) =>
    match hClose : cut? ['}'] opened with
    | none => [.literal template]
    | some (name, rest) =>
      have : rest.length < template.length :=
        Nat.lt_trans (length_lt_of_cut? (List.cons_ne_nil _ _) hClose)
          (length_lt_of_cut? (List.cons_ne_nil _ _) hOpen)
      .literal before :: .placeholder (trim name) :: pieces rest
termination_by template.length

/-- The name of a piece that is a placeholder. -/
def Piece.name? : Piece → Option String
  | .literal _ => none
  | .placeholder name => some (String.ofList name)

/-- A text without an opening brace is one piece. -/
theorem pieces_eq_literal {template : List Char} (h : Text.cut? ['{'] template = none) :
    pieces template = [.literal template] := by
  rw [pieces]
  split
  · rfl
  · next hopen => cases h.symm.trans hopen

/-- A text whose opening brace is not closed is one piece. -/
theorem pieces_eq_unclosed {template before opened : List Char}
    (hopen : Text.cut? ['{'] template = some (before, opened))
    (hclose : Text.cut? ['}'] opened = none) : pieces template = [.literal template] := by
  rw [pieces]
  split
  · rfl
  · next hsome =>
      cases hopen.symm.trans hsome
      split
      · rfl
      · next hsome => cases hclose.symm.trans hsome

/-- A pair of braces gives a placeholder, and the text after it goes on. -/
theorem pieces_eq_cons {template before opened name rest : List Char}
    (hopen : Text.cut? ['{'] template = some (before, opened))
    (hclose : Text.cut? ['}'] opened = some (name, rest)) :
    pieces template = .literal before :: .placeholder (Text.trim name) :: pieces rest := by
  rw [pieces]
  split
  · next hnone => cases hopen.symm.trans hnone
  · next hsome =>
      cases hopen.symm.trans hsome
      split
      · next hnone => cases hclose.symm.trans hnone
      · next hsome =>
          cases hclose.symm.trans hsome
          rfl

/-! ### Reading a template -/

/-- The text has an opening brace with a closing one somewhere after it. -/
def HasPair (text : List Char) : Prop :=
  ∃ before name rest, text = before ++ '{' :: (name ++ '}' :: rest)

/-- A text is read as pieces.

- `literal`: a text without a pair of braces is literal;
- `placeholder`: the first opening brace and the first closing one after it hold a placeholder,
  whose name does not count blanks at the ends, and what follows is read by itself. -/
inductive Reads : List Char → List Piece → Prop where
  | literal {text : List Char} (hpair : ¬ HasPair text) : Reads text [.literal text]
  | placeholder {before name rest : List Char} {ps : List Piece} (hbefore : '{' ∉ before)
    (hname : '}' ∉ name) (hrest : Reads rest ps) :
    Reads (before ++ '{' :: (name ++ '}' :: rest))
      (.literal before :: .placeholder (Text.trim name) :: ps)

/-- A pair of braces does not start in a text without an opening brace. -/
theorem hasPair_append_iff {before text : List Char} (hbefore : '{' ∉ before) :
    HasPair (before ++ text) ↔ HasPair text := by
  constructor
  · rintro ⟨start, name, rest, heq⟩
    rcases List.append_eq_append_iff.mp heq with ⟨middle, rfl, htext⟩ | ⟨middle, rfl, htext⟩
    · exact ⟨middle, name, rest, htext⟩
    · cases middle with
      | nil => exact ⟨[], name, rest, htext.symm⟩
      | cons c middle =>
          -- The brace would be in the text before.
          obtain ⟨rfl, -⟩ := List.cons.inj htext
          simp at hbefore
  · rintro ⟨start, name, rest, rfl⟩
    exact ⟨before ++ start, name, rest, by rw [List.append_assoc]⟩

/-- A pair of braces has an opening one. -/
theorem HasPair.mem_open {text : List Char} (h : HasPair text) : '{' ∈ text := by
  obtain ⟨before, name, rest, rfl⟩ := h
  simp

/-- After the first opening brace a pair has a closing one. -/
theorem hasPair_cons_iff {text : List Char} : HasPair ('{' :: text) ↔ '}' ∈ text := by
  constructor
  · rintro ⟨before, name, rest, heq⟩
    cases before with
    | nil =>
        obtain ⟨-, rfl⟩ := List.cons.inj heq
        simp
    | cons c before =>
        obtain ⟨-, rfl⟩ := List.cons.inj heq
        simp
  · intro hclose
    obtain ⟨name, rest, rfl⟩ := List.append_of_mem hclose
    exact ⟨[], name, rest, rfl⟩

/-- A template is read as its pieces. -/
theorem reads_pieces (text : List Char) : Reads text (pieces text) := by
  induction text using pieces.induct with
  | case1 text hopen =>
      rw [pieces_eq_literal hopen]
      exact .literal fun hpair => Text.cut?_char_eq_none_iff.mp hopen hpair.mem_open
  | case2 text before opened hopen hclose =>
      rw [pieces_eq_unclosed hopen hclose]
      obtain ⟨hbefore, rfl⟩ := Text.cut?_char_eq_some_iff.mp hopen
      refine .literal fun hpair => Text.cut?_char_eq_none_iff.mp hclose ?_
      exact hasPair_cons_iff.mp ((hasPair_append_iff hbefore).mp hpair)
  | case3 text before opened hopen name rest hclose hshorter ih =>
      obtain ⟨hbefore, rfl⟩ := Text.cut?_char_eq_some_iff.mp hopen
      obtain ⟨hname, rfl⟩ := Text.cut?_char_eq_some_iff.mp hclose
      rw [pieces_eq_cons hopen hclose]
      exact .placeholder hbefore hname ih

/-- Without a pair of braces all is one piece. -/
theorem pieces_eq_of_not_hasPair {text : List Char} (hpair : ¬ HasPair text) :
    pieces text = [.literal text] := by
  cases hopen : Text.cut? ['{'] text with
  | none => exact pieces_eq_literal hopen
  | some found =>
      obtain ⟨before, opened⟩ := found
      refine pieces_eq_unclosed hopen (Text.cut?_char_eq_none_iff.mpr fun hclose => hpair ?_)
      obtain ⟨hbefore, rfl⟩ := Text.cut?_char_eq_some_iff.mp hopen
      exact (hasPair_append_iff hbefore).mpr (hasPair_cons_iff.mpr hclose)

/-- Every template is read in one way. -/
theorem reads_iff {text : List Char} {ps : List Piece} : Reads text ps ↔ pieces text = ps := by
  constructor
  · intro h
    induction h with
    | literal hpair => exact pieces_eq_of_not_hasPair hpair
    | @placeholder before name rest ps hbefore hname _ ih =>
        have hopen : Text.cut? ['{'] (before ++ '{' :: (name ++ '}' :: rest))
            = some (before, name ++ '}' :: rest) :=
          Text.cut?_char_eq_some_iff.mpr ⟨hbefore, rfl⟩
        have hclose : Text.cut? ['}'] (name ++ '}' :: rest) = some (name, rest) :=
          Text.cut?_char_eq_some_iff.mpr ⟨hname, rfl⟩
        rw [pieces_eq_cons hopen hclose, ih]
  · rintro rfl
    exact reads_pieces text

end DeclaredApi.Template
