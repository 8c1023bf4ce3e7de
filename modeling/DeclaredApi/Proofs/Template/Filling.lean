import DeclaredApi.Proofs.Template
import DeclaredApi.Proofs.Text.Percent

/-!
# `DeclaredApi.Proofs.Template.Filling`: what fills a template

`fill_tells` is about filling: it fails exactly where a placeholder has no argument that is given,
with the names of these placeholders in order, and what it gives otherwise is the literal text of
the template with an encoded text for every placeholder (`Piece.FilledWith`). An encoded text holds
no character that means something in an address, so a filled path has no separator that is not in
the literal text (`count_join`), and no placeholder at all (`not_hasPair_join`).
-/

set_option autoImplicit false

namespace DeclaredApi.Template

/-- The literal text of a piece. -/
def Piece.literalText : Piece → List Char
  | .literal text => text
  | .placeholder _ => []

/-- The names of the placeholders without an argument that is given, in order. -/
def unfilled (arguments : Arguments) (ps : List Piece) : List String :=
  (ps.filterMap Piece.name?).filter fun name => ¬ arguments.isGiven name

/-- What a piece is filled with.

- `literal`: a literal piece with its own text;
- `placeholder`: a placeholder with an encoded text, and what that stands for is the argument of
  its name as a text. -/
inductive Piece.FilledWith (arguments : Arguments) : Piece → String → Prop where
  | literal (text : List Char) : FilledWith arguments (.literal text) (String.ofList text)
  | placeholder {name : List Char} {value : Json} {text : String}
    (hfind : Dict.find? (String.ofList name) arguments = some value)
    (hnull : value.isNull = false) (htext : Text.PercentText text.toList)
    (hdecode : Text.percentDecode? text = some value.plainText) :
    FilledWith arguments (.placeholder name) text

variable {arguments : Arguments}

/-- The text that a piece stands for is decoded to the argument that it is filled with. -/
theorem Piece.Fills.filledWith {piece : Piece} {text : String} (h : piece.Fills arguments text) :
    piece.FilledWith arguments text := by
  cases h with
  | literal text => exact .literal text
  | placeholder hfind hnull =>
      exact .placeholder hfind hnull (Text.percentText_percentEncode _)
        (Text.percentDecode?_percentEncode _)

/-- A character that is no part of an encoded text comes from the literal text alone. -/
theorem count_join {ps : List Piece} {texts : List String}
    (h : List.Forall₂ (Piece.FilledWith arguments) ps texts) {c : Char}
    (hreserved : Text.isUnreserved c = false) (hpercent : c ≠ '%') :
    (String.join texts).toList.count c = (ps.flatMap Piece.literalText).count c := by
  induction h with
  | nil => rfl
  | @cons piece text ps texts hpiece _ ih =>
      rw [String.join_cons, String.toList_append, List.count_append, ih, List.flatMap_cons,
        List.count_append]
      cases hpiece with
      | literal text => rw [String.toList_ofList, Piece.literalText]
      | placeholder _ _ htext _ =>
          rw [List.count_eq_zero_of_not_mem (htext.not_mem hreserved hpercent)]
          rfl

/-- A filled template has no pair of braces. -/
theorem not_hasPair_join {text : List Char} {ps : List Piece} (hreads : Reads text ps)
    {texts : List String} (h : List.Forall₂ (Piece.FilledWith arguments) ps texts) :
    ¬ HasPair (String.join texts).toList := by
  induction hreads generalizing texts with
  | literal hpair =>
      obtain ⟨first, rest, hfirst, hrest, rfl⟩ := List.forall₂_cons_left_iff.mp h
      obtain rfl := List.forall₂_nil_left_iff.mp hrest
      cases hfirst
      simpa using hpair
  | @placeholder before name rest ps hbefore _ _ ih =>
      obtain ⟨first, _, hfirst, hrest, rfl⟩ := List.forall₂_cons_left_iff.mp h
      obtain ⟨second, others, hsecond, hothers, rfl⟩ := List.forall₂_cons_left_iff.mp hrest
      cases hfirst
      cases hsecond with
      | placeholder _ _ htext _ =>
          have hfilled : '{' ∉ second.toList := htext.not_mem (by decide) (by decide)
          rw [String.join_cons, String.join_cons, String.toList_append, String.toList_append,
            String.toList_ofList, hasPair_append_iff hbefore, hasPair_append_iff hfilled]
          exact ih hothers

/-- Filling fails with the names of the placeholders that have no argument, if there are any. -/
theorem fill_eq_error_iff {template : String} {missing : List String} :
    fill template arguments = .error missing ↔
      missing ≠ [] ∧ missing = unfilled arguments (pieces template.toList) := by
  have hunfilled : unfilled arguments (pieces template.toList) = [] ↔
      ∀ name ∈ names template, arguments.isGiven name = true := by
    simp [unfilled, names, List.filter_eq_nil_iff]
  rw [fill_eq]
  split
  · next hgiven =>
      rw [hunfilled.mpr hgiven]
      simp
  · next hmissing =>
      constructor
      · intro h
        obtain rfl := Except.error.inj h
        exact ⟨fun hnil => hmissing (hunfilled.mp hnil), rfl⟩
      · rintro ⟨-, rfl⟩
        rfl

/-- What becomes of a template is told by the one way in which it is read. Filling fails exactly
where a placeholder is unfilled, and then it reports the names of all that are. Otherwise every
placeholder gives way to an encoded text that stands for its argument, and the literal text stays:
no pair of braces is left, and every character that an encoded text does not have is there as often
as in the literal text. -/
theorem fill_tells (template : String) (arguments : Arguments) :
    ∃ ps, Reads template.toList ps ∧ (∀ other, Reads template.toList other → other = ps) ∧
      match (fill template arguments).mapError Arguments.unfilledReport with
      | .error report =>
        unfilled arguments ps ≠ [] ∧ report.missing = unfilled arguments ps ∧
          report.errors.map Finding.message
            = (unfilled arguments ps).map (fun name =>
                "missing required parameter '" ++ name ++ "'") ∧
          report.valid = false
      | .ok path =>
        unfilled arguments ps = [] ∧
          ∃ texts, List.Forall₂ (Piece.FilledWith arguments) ps texts ∧
            path = String.join texts ∧ ¬ HasPair path.toList ∧
            ∀ c, Text.isUnreserved c = false → c ≠ '%' →
              path.toList.count c = (ps.flatMap Piece.literalText).count c := by
  have hreads := reads_pieces template.toList
  refine ⟨_, hreads, fun other hother => (reads_iff.mp hother).symm, ?_⟩
  cases hfill : fill template arguments with
  | error missing =>
      obtain ⟨hne, rfl⟩ := fill_eq_error_iff.mp hfill
      refine ⟨hne, rfl, ?_, ?_⟩
      · show (List.map Finding.missing _).map Finding.message = _
        rw [List.map_map]
        exact List.map_congr_left fun _ _ => rfl
      · show (List.map Finding.missing _).isEmpty = false
        rw [List.isEmpty_map, List.isEmpty_eq_false_iff]
        exact hne
  | ok path =>
      obtain ⟨texts, hfills, rfl⟩ := exists_texts_of_fill hfill
      have hfilled := hfills.imp fun _ _ => Piece.Fills.filledWith
      refine ⟨?_, texts, hfilled, rfl, not_hasPair_join hreads hfilled, fun c => count_join hfilled⟩
      -- A placeholder without a value would have made the filling fail.
      by_contra hne
      cases hfill.symm.trans (fill_eq_error_iff.mpr ⟨hne, rfl⟩)

end DeclaredApi.Template
