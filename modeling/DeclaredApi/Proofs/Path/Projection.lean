import DeclaredApi.Proofs.Path.Joined
import Mathlib.Data.List.TakeWhile

/-!
# `DeclaredApi.Proofs.Path.Projection`: every element, and the element at a position

A path over every element of an array collects what the same path finds at each position. The two
are told apart in the text before anything is read: `items[*].id` is cut at its marker, and
`items[0].id` is one path whose part `items[0]` has two steps. So the law has two halves.
`get?_each` reads the first text, and the second one is joined of a path to the array with a
position behind it (`get?_element`), and the path after the dot (`get?_joined`).

A position in brackets is one more step, where the part it stands behind is a key with positions
in brackets (`Indexed`). That is said of the text, and it is what the reader of positions takes
(`isIndexed_iff`). Behind any other bracket the position would belong to the key: the part `a[x][0]`
has one step. A marker does not occur in such a path (`Indexed.plain`).

`get?_each_elements` is the law for paths.
-/

set_option autoImplicit false

namespace DeclaredApi

namespace Path

open Text (cut?)

variable {path part text : List Char} {position : Nat} {found : List Nat}

/-! ### Paths with positions -/

/-- A text in brackets. -/
def bracketed (text : List Char) : List Char :=
  '[' :: text ++ [']']

/-- The part is a key without an opening bracket, with positions in brackets behind it. Either may
be missing. -/
def IsIndexed (part : List Char) : Prop :=
  ∃ (name : List Char) (positions : List (List Char)),
    part = name ++ positions.flatMap bracketed ∧ '[' ∉ name ∧
      ∀ text ∈ positions, (position? text).isSome

/-- Every part of the path is a key with positions behind it. -/
def Indexed (path : List Char) : Prop :=
  ∀ part ∈ path.splitOn '.', IsIndexed part

/-- The path to the element at the position of the array at the path. -/
def element (path : List Char) (position : Nat) : List Char :=
  path ++ bracketed (Nat.toDigits 10 position)

/-- Induction along the parts of a path. -/
theorem inductionOnParts {motive : List Char → Prop}
    (last : ∀ part, '.' ∉ part → motive part)
    (next : ∀ part rest, '.' ∉ part → motive rest → motive (part ++ '.' :: rest))
    (path : List Char) : motive path := by
  by_cases hdot : '.' ∈ path
  · obtain ⟨part, rest, hpath, hpart⟩ := List.eq_append_cons_of_mem hdot
    have hlt : rest.length < path.length := by
      rw [hpath, List.length_append, List.length_cons]
      omega
    exact hpath ▸ next part rest hpart (inductionOnParts last next rest)
  · exact last path hdot
termination_by path.length

/-! ### Positions in brackets -/

/-- A text that names a position has digits and a plus sign alone. -/
theorem not_mem_of_position? (h : position? text = some position) {c : Char} (hsign : c ≠ '+')
    (hdigit : c.isDigit = false) : c ∉ text := by
  intro hc
  simp only [position?, Option.ite_none_right_eq_some] at h
  obtain ⟨⟨-, hdigits, -⟩, -⟩ := h
  have hall : ∀ digits : List Char, digits.all Char.isDigit = true → c ∉ digits := by
    intro digits hdigits hmem
    have htrue := List.all_eq_true.1 hdigits c hmem
    rw [hdigit] at htrue
    cases htrue
  split at hdigits
  · exact (List.mem_cons.1 hc).elim hsign (hall _ hdigits)
  · exact hall _ hdigits hc

/-- A position in brackets, behind some others. -/
theorem positions?_append (h : positions? text = some found) {digits : List Char}
    (hposition : position? digits = some position) :
    positions? (text ++ bracketed digits) = some (found ++ [position]) := by
  fun_induction positions? text generalizing found with
  | case1 =>
      cases h
      -- The search for the closing bracket ends at the one that was appended.
      have hcut : cut? [']'] (digits ++ [']']) = some (digits, []) :=
        Text.cut?_char_eq_some_iff.mpr ⟨not_mem_of_position? hposition (by decide) (by decide), rfl⟩
      rw [List.nil_append, bracketed, List.cons_append, positions?]
      split
      · next hnone =>
          rw [hcut] at hnone
          cases hnone
      · next inner after hsome =>
          rw [hcut] at hsome
          cases hsome
          rw [hposition, positions?]
          rfl
  | case2 rest hcut => cases h
  | case3 rest inner after hcut ih =>
      simp only [Option.bind_eq_bind, Option.bind_eq_some_iff] at h
      obtain ⟨first, hfirst, more, hmore, h⟩ := h
      cases h
      -- The first closing bracket stays the first one in a longer text.
      have hcut' := Text.cut?_append_of_some hcut (bracketed digits)
      rw [List.cons_append, positions?]
      split
      · next hnone =>
          rw [hcut'] at hnone
          cases hnone
      · next inner' after' hsome =>
          rw [hcut'] at hsome
          cases hsome
          rw [hfirst, ih hmore]
          rfl
  | case4 => cases h

/-- Positions in brackets have no star. -/
theorem not_mem_of_positions? (h : positions? text = some found) : '*' ∉ text := by
  fun_induction positions? text generalizing found with
  | case1 => exact List.not_mem_nil
  | case2 rest hcut => cases h
  | case3 rest inner after hcut ih =>
      simp only [Option.bind_eq_bind, Option.bind_eq_some_iff] at h
      obtain ⟨first, hfirst, more, hmore, -⟩ := h
      have hinner : '*' ∉ inner := not_mem_of_position? hfirst (by decide) (by decide)
      rw [Text.cut?_eq_some_imp hcut]
      simp [hinner, ih hmore]
  | case4 => cases h

/-! ### Indexed parts -/

/-- The name of a part ends at its first bracket, whatever follows that. -/
theorem takeWhile_append_bracketed (part text : List Char) :
    (part ++ bracketed text).takeWhile (· != '[') = part.takeWhile (· != '[') ∧
      (part ++ bracketed text).dropWhile (· != '[')
        = part.dropWhile (· != '[') ++ bracketed text := by
  induction part with
  | nil => exact ⟨rfl, rfl⟩
  | cons c part ih =>
      rw [List.cons_append, List.takeWhile_cons, List.takeWhile_cons, List.dropWhile_cons,
        List.dropWhile_cons, ih.1, ih.2]
      split <;> exact ⟨rfl, rfl⟩

/-- An indexed part ends in positions. -/
theorem IsIndexed.exists_positions (h : IsIndexed part) :
    ∃ found, positions? (part.dropWhile (· != '[')) = some found := by
  obtain ⟨name, texts, rfl, hname, htexts⟩ := h
  induction texts using List.reverseRecOn with
  | nil =>
      have hpasses : ∀ c ∈ name, (c != '[') = true := fun c hc =>
        bne_iff_ne.2 fun heq => hname (heq ▸ hc)
      rw [List.flatMap_nil, List.append_nil, List.dropWhile_eq_nil_iff.2 hpasses]
      exact ⟨[], by rw [positions?]⟩
  | append_singleton texts text ih =>
      obtain ⟨found, hfound⟩ := ih fun text hmem => htexts text (List.mem_append_left _ hmem)
      obtain ⟨position, hposition⟩ :=
        Option.isSome_iff_exists.1 (htexts text (by simp))
      rw [List.flatMap_append, List.flatMap_singleton, ← List.append_assoc,
        (takeWhile_append_bracketed _ _).2]
      exact ⟨_, positions?_append hfound hposition⟩

/-- What is read as positions is positions in brackets. -/
theorem exists_texts_of_positions? (h : positions? text = some found) :
    ∃ texts : List (List Char), text = texts.flatMap bracketed ∧
      ∀ inner ∈ texts, (position? inner).isSome := by
  fun_induction positions? text generalizing found with
  | case1 => exact ⟨[], rfl, fun _ hmem => absurd hmem List.not_mem_nil⟩
  | case2 rest hcut => cases h
  | case3 rest inner after hcut ih =>
      simp only [Option.bind_eq_bind, Option.bind_eq_some_iff] at h
      obtain ⟨first, hfirst, more, hmore, -⟩ := h
      obtain ⟨texts, rfl, htexts⟩ := ih hmore
      refine ⟨inner :: texts, ?_, List.forall_mem_cons.2 ⟨by rw [hfirst]; rfl, htexts⟩⟩
      rw [Text.cut?_eq_some_imp hcut, List.flatMap_cons, bracketed, List.cons_append,
        List.cons_append]
  | case4 => cases h

/-- A part is indexed exactly if what it has from its first bracket on is read as positions. -/
theorem isIndexed_iff :
    IsIndexed part ↔ ∃ found, positions? (part.dropWhile (· != '[')) = some found := by
  refine ⟨IsIndexed.exists_positions, fun ⟨found, hfound⟩ => ?_⟩
  obtain ⟨texts, hending, htexts⟩ := exists_texts_of_positions? hfound
  refine ⟨part.takeWhile (· != '['), texts, ?_, fun hmem => ?_, htexts⟩
  · rw [← hending, List.takeWhile_append_dropWhile]
  · simpa using List.mem_takeWhile_imp hmem

/-- A position behind an indexed part is one more step. -/
theorem IsIndexed.partSteps_append (h : IsIndexed part)
    (hposition : position? text = some position) :
    partSteps (part ++ bracketed text) = partSteps part ++ [.index position] := by
  obtain ⟨found, hfound⟩ := h.exists_positions
  obtain ⟨htake, hdrop⟩ := takeWhile_append_bracketed part text
  simp only [partSteps, htake, hdrop, hfound, positions?_append hfound hposition,
    List.map_append, List.map_singleton, List.append_assoc]

/-- Positions in brackets are no markers. -/
theorem IsIndexed.plain (h : IsIndexed part) : Plain part := by
  obtain ⟨found, hfound⟩ := h.exists_positions
  have hstar := not_mem_of_positions? hfound
  have hbracket : '[' ∉ part.takeWhile (· != '[') := fun hmem => by
    simpa using List.mem_takeWhile_imp hmem
  intro hmarker
  rw [← List.takeWhile_append_dropWhile (p := (· != '[')) (l := part), List.infix_append_iff]
    at hmarker
  rcases hmarker with hname | hending | ⟨start, ending, hsplit, hname, hending⟩
  · exact hbracket (hname.subset (by decide))
  · exact hstar (hending.subset (by decide))
  · -- The bracket of the marker is not in the name, so its star is not in there either.
    cases start with
    | nil => exact hstar (hending.subset (by rw [← show wildcard = ending from hsplit]; decide))
    | cons c start =>
        obtain rfl := (List.cons.inj hsplit).1
        exact hbracket (hname.subset List.mem_cons_self)

/-! ### Indexed paths -/

/-- A path of one part is indexed if the part is. -/
theorem indexed_of_part (hdot : '.' ∉ part) : Indexed part ↔ IsIndexed part := by
  rw [Indexed, List.splitOn_eq_singleton hdot, List.forall_mem_singleton]

/-- A joined path is indexed if both of its parts are. -/
theorem indexed_joined (path rest : List Char) :
    Indexed (path ++ '.' :: rest) ↔ Indexed path ∧ Indexed rest := by
  rw [Indexed, List.splitOn_append_cons_self, List.forall_mem_append]
  rfl

/-- No part of an indexed path has a marker. -/
theorem Indexed.plain (h : Indexed path) : Plain path := by
  induction path using inductionOnParts with
  | last part hdot => exact ((indexed_of_part hdot).1 h).plain
  | next part rest hdot ih =>
      obtain ⟨hpart, hrest⟩ := (indexed_joined part rest).1 h
      exact plain_joined ((indexed_of_part hdot).1 hpart).plain (ih hrest)

/-- A path without a dot has the steps of its one part. -/
theorem steps_of_part (hdot : '.' ∉ part) : steps part = partSteps part := by
  rw [steps, List.splitOn_eq_singleton hdot]
  cases part with
  | nil =>
      rw [partSteps, List.dropWhile_nil, positions?]
      rfl
  | cons c part => exact List.flatMap_singleton _ _

/-- The position of an element stands at the end of the second part. -/
theorem element_joined (path rest : List Char) (position : Nat) :
    element (path ++ '.' :: rest) position = path ++ '.' :: element rest position := by
  rw [element, List.append_assoc, List.cons_append]
  rfl

/-- A position belongs to the last part of the path that it stands behind. -/
theorem not_mem_element (hdot : '.' ∉ part) (hlt : position < 18446744073709551616) :
    '.' ∉ element part position := by
  have hdigits := not_mem_of_position? (position?_toDigits hlt) (c := '.') (by decide) (by decide)
  simp [element, bracketed, hdot, hdigits]

/-- The element at a position is one step down. -/
theorem Indexed.steps_element (h : Indexed path) (hlt : position < 18446744073709551616) :
    steps (element path position) = steps path ++ [.index position] := by
  induction path using inductionOnParts with
  | last part hdot =>
      have hpart := (indexed_of_part hdot).1 h
      rw [steps_of_part (not_mem_element hdot hlt), steps_of_part hdot, element,
        hpart.partSteps_append (position?_toDigits hlt)]
  | next part rest hdot ih =>
      obtain ⟨-, hrest⟩ := (indexed_joined part rest).1 h
      rw [element_joined, steps_joined, steps_joined, ih hrest, List.append_assoc]

/-- The path to an element is indexed itself. -/
theorem Indexed.element (h : Indexed path) (hlt : position < 18446744073709551616) :
    Indexed (element path position) := by
  induction path using inductionOnParts with
  | last part hdot =>
      obtain ⟨name, texts, rfl, hname, htexts⟩ := (indexed_of_part hdot).1 h
      refine (indexed_of_part (not_mem_element hdot hlt)).2
        ⟨name, texts ++ [Nat.toDigits 10 position], ?_, hname, ?_⟩
      · rw [Path.element, List.flatMap_append, List.flatMap_singleton, List.append_assoc]
      · intro text hmem
        rcases List.mem_append.1 hmem with hmem | hmem
        · exact htexts text hmem
        · rw [List.mem_singleton.1 hmem, position?_toDigits hlt]
          rfl
  | next part rest hdot ih =>
      obtain ⟨hpart, hrest⟩ := (indexed_joined part rest).1 h
      rw [element_joined]
      exact (indexed_joined part _).2 ⟨hpart, ih hrest⟩

end Path

namespace Json

open DeclaredApi.Path (wildcardDot)

variable {head : List Char}

/-- The element at a position is the item there. -/
theorem get?_element (h : Path.Indexed head) {position : Nat}
    (hlt : position < 18446744073709551616) {root : Json} {items : List Json}
    (hget : root.get? head = some (.array items)) :
    root.get? (Path.element head position) = items[position]? := by
  rw [get?_eq_getAt? h.plain] at hget
  rw [get?_eq_getAt? (h.element hlt).plain, h.steps_element hlt, getAt?_append, hget]
  show items[position]? >>= _ = _
  cases items[position]? <;> rfl

/-- Behind a marker, a path finds something exactly if there is an array before the marker. Then it
finds as many values as the array has items, and each of them is what the path finds behind the
position of the item, or null where that is nothing. Positions have 64 bits. -/
theorem get?_each_elements (h : Path.Indexed head) (root : Json) (rest : List Char) :
    ((root.get? (head ++ wildcardDot ++ rest)).isSome ↔
      ∃ items, root.get? head = some (.array items)) ∧
    ∀ items, root.get? head = some (.array items) →
      ∃ projected, root.get? (head ++ wildcardDot ++ rest) = some (.array projected) ∧
        projected.length = items.length ∧
        ∀ position, position < items.length → position < 2 ^ 64 →
          projected[position]?
            = some ((root.get? (Path.element head position ++ '.' :: rest)).getD .null) := by
  rw [get?_each h.plain]
  constructor
  · split
    · next items hitems => simp [hitems]
    · next hnone =>
        simp only [Option.isSome_none, Bool.false_eq_true, false_iff, not_exists]
        exact hnone
  · intro items hitems
    rw [hitems]
    refine ⟨_, rfl, List.length_map _, fun position hlt hbits => ?_⟩
    rw [get?_joined (h.element hbits).plain, get?_element h hbits hitems,
      List.getElem?_map, List.getElem?_eq_getElem hlt]
    rfl

/-- A book of two pages, of which the first one has two entries. -/
def book : Json :=
  .object [("pages", .array [.array [.object [("tags", .array [.object [("name", .string "red")],
    .null])], .bool true], .null])]

/-- The tags of all entries of a page, and those of the first entry. The second one has none. -/
theorem get?_each_elements_of_book :
    Path.Indexed "pages[0]".toList ∧
      ∃ tags, book.get? "pages[0][*].tags[*].name".toList = some (.array tags) ∧
        tags.length = 2 ∧
        tags[0]? = some ((book.get? "pages[0][0].tags[*].name".toList).getD .null) ∧
        tags[1]? = some .null := by
  have hindexed : Path.Indexed "pages[0]".toList :=
    (Path.indexed_of_part (by decide)).2
      ⟨"pages".toList, ["0".toList], by decide, by decide, by decide⟩
  have hpage : book.get? "pages[0]".toList
      = some (.array [.object [("tags", .array [.object [("name", .string "red")], .null])],
          .bool true]) := by
    with_unfolding_all rfl
  have hsecond : book.get? (Path.element "pages[0]".toList 1 ++ '.' :: "tags[*].name".toList)
      = none := by
    with_unfolding_all rfl
  obtain ⟨-, hprojected⟩ := get?_each_elements hindexed book "tags[*].name".toList
  obtain ⟨tags, htags, hlength, hread⟩ := hprojected _ hpage
  have hread₁ := hread 1 (by decide) (by decide)
  rw [hsecond] at hread₁
  exact ⟨hindexed, tags, htags, hlength, hread 0 (by decide) (by decide), hread₁⟩

end Json
end DeclaredApi
