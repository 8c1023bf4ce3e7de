import DeclaredApi.Arguments.Parts
import DeclaredApi.Proofs.Json.Record
import DeclaredApi.Proofs.Text.Cut
import DeclaredApi.Proofs.Text.Percent

/-!
# `DeclaredApi.Proofs.Arguments.Query`: queries are read back

`readQuery?` reads the text of a query as a server does: it is cut at every `&`, each piece at its
first `=`, and both sides of that are decoded. It asks for nothing of how the text was made.

No separator is left in an encoded name or value, so the cuts are where the pairs and their sides
meet (`readPair?_pairText`), and by `percentDecode?_percentEncode` each side is what it was.
`queryString?_tells` is the result for lists of pairs: only the empty one has no text, every other
one is read back from its text, in order, and so no two lists have the same text.
-/

set_option autoImplicit false

namespace DeclaredApi.RequestParts

/-- A name and a value with the first equals sign between them. -/
def readPair? (text : List Char) : Option (String × String) := do
  let (name, value) ← Text.cut? ['='] text
  let name ← Text.percentDecode? (String.ofList name)
  let value ← Text.percentDecode? (String.ofList value)
  return (name, value)

/-- The pairs of a query, each of them up to the next ampersand. -/
def readQuery? (text : String) : Option (List (String × String)) :=
  (text.toList.splitOn '&').mapM readPair?

/-- The text of a pair. -/
def pairText (pair : String × String) : String :=
  Text.percentEncode pair.1 ++ "=" ++ Text.percentEncode pair.2

/-- A pair is its encoded name, an equals sign and its encoded value. -/
theorem toList_pairText (pair : String × String) :
    (pairText pair).toList
      = (Text.percentEncode pair.1).toList ++ '=' :: (Text.percentEncode pair.2).toList := by
  rw [pairText, String.toList_append, String.toList_append, List.append_assoc]
  rfl

/-- Encoded names and values have no ampersand. -/
theorem amp_not_mem_pairText (pair : String × String) : '&' ∉ (pairText pair).toList := by
  have hside : ∀ side, '&' ∉ (Text.percentEncode side).toList := fun side =>
    (Text.percentText_percentEncode side).not_mem (by decide) (by decide)
  rw [toList_pairText, List.mem_append, List.mem_cons]
  rintro (hname | hequals | hvalue)
  · exact hside _ hname
  · exact absurd hequals (by decide)
  · exact hside _ hvalue

/-- Encoded names have no equals sign, so the first one is the one between name and value. -/
theorem readPair?_pairText (pair : String × String) :
    readPair? (pairText pair).toList = some pair := by
  have hname : '=' ∉ (Text.percentEncode pair.1).toList :=
    (Text.percentText_percentEncode pair.1).not_mem (by decide) (by decide)
  unfold readPair?
  rw [toList_pairText, Text.cut?_char_eq_some_iff.mpr ⟨hname, rfl⟩]
  simp [Text.percentDecode?_percentEncode]

/-- Cutting at ampersands gives the texts of the pairs. -/
theorem splitOn_intercalate_pairText {pairs : List (String × String)} (hne : pairs ≠ []) :
    (String.intercalate "&" (pairs.map pairText)).toList.splitOn '&'
      = pairs.map fun pair => (pairText pair).toList := by
  have htexts : (String.intercalate "&" (pairs.map pairText)).toList
      = ['&'].intercalate (pairs.map fun pair => (pairText pair).toList) := by
    rw [String.toList_intercalate, List.map_map]
    rfl
  rw [htexts]
  refine List.splitOn_intercalate '&' ?_ (by simpa using hne)
  intro text htext
  obtain ⟨pair, -, rfl⟩ := List.mem_map.mp htext
  exact amp_not_mem_pairText pair

/-- There is a query text exactly if there are pairs, and then they are joined by ampersands. -/
theorem queryString?_eq (parts : RequestParts) :
    parts.queryString?
      = if parts.query = [] then none
        else some (String.intercalate "&" (parts.query.map pairText)) := by
  unfold queryString?
  simp only [List.isEmpty_iff]
  rfl

/-- Pairs are read back from the text of their query, in order. -/
theorem readQuery?_of_queryString? {parts : RequestParts} {text : String}
    (h : parts.queryString? = some text) : readQuery? text = some parts.query := by
  rw [queryString?_eq] at h
  split at h
  · cases h
  · next hne =>
      obtain rfl := Option.some.inj h
      rw [readQuery?, splitOn_intercalate_pairText hne]
      exact Json.mapM_map_eq_some fun pair _ => readPair?_pairText pair

/-- A query has no text exactly if it has no pairs, and otherwise its pairs are read back from the
text. So two queries have the same text only if they have the same pairs in the same order. -/
theorem queryString?_tells (parts other : RequestParts) :
    (match parts.queryString? with
      | none => parts.query = []
      | some text => parts.query ≠ [] ∧ readQuery? text = some parts.query) ∧
    (parts.queryString? = other.queryString? ↔ parts.query = other.query) := by
  have hnone : ∀ parts : RequestParts, parts.queryString? = none ↔ parts.query = [] := by
    intro parts
    rw [queryString?_eq, ite_eq_left_iff]
    simp
  constructor
  · cases htext : parts.queryString? with
    | none => exact (hnone parts).mp htext
    | some text =>
        refine ⟨fun hnil => ?_, readQuery?_of_queryString? htext⟩
        cases htext.symm.trans ((hnone parts).mpr hnil)
  · constructor
    · intro hsame
      cases htext : parts.queryString? with
      | none => rw [(hnone parts).mp htext, (hnone other).mp (hsame.symm.trans htext)]
      | some text =>
          -- One text is read back to both lists of pairs.
          have hread := readQuery?_of_queryString? (hsame.symm.trans htext)
          rw [readQuery?_of_queryString? htext] at hread
          exact Option.some.inj hread
    · intro hsame
      rw [queryString?_eq, queryString?_eq, hsame]

end DeclaredApi.RequestParts
