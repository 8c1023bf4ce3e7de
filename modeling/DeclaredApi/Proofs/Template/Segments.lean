import DeclaredApi.Proofs.Http.Steps
import DeclaredApi.Proofs.Template
import DeclaredApi.Proofs.Text.Percent

/-!
# `DeclaredApi.Proofs.Template.Segments`: the segments of a template

A template is literal characters and placeholders (`items`). The part of it that is a path ends at
the first question mark or hash of its literal text (`route`), and the slashes of the literal text
cut the path into segments (`segments`).

An encoded text has no slash, question mark or hash, so a template can be cut before it is filled
or afterwards: the segments of a filled path are the filled segments of the template
(`segments_of_fill`). The reason is one about lists, `takeWhile_flatMap` and `splitOnP_flatMap`:
where each item of a list gives way to several, and only the marks of the list give marks, a list
is cut at the same places before and after that.
-/

set_option autoImplicit false

namespace DeclaredApi

namespace Http

/-- A character that ends the path of an address. -/
def endsPath (c : Char) : Bool :=
  c == '?' || c == '#'

/-- A character between two segments of a path. A backslash counts as a slash there. -/
def isSlash (c : Char) : Bool :=
  c == '/' || c == '\\'

end Http

namespace Template

/-! ### Lists whose items give way to several -/

section Marks

variable {α β : Type} {mark : α → Bool} {mark' : β → Bool} {f : α → List β}

/-- The marks of a list stay marks, each of them one, and no other item gives one. -/
def KeepsMarks (mark : α → Bool) (mark' : β → Bool) (f : α → List β) : Prop :=
  ∀ a, if mark a then ∃ b, f a = [b] ∧ mark' b = true else ∀ b ∈ f a, mark' b = false

/-- A list ends at the same mark before and after its items give way. -/
theorem takeWhile_flatMap (hf : KeepsMarks mark mark' f) (items : List α) :
    (items.flatMap f).takeWhile (fun b => !mark' b)
      = (items.takeWhile fun a => !mark a).flatMap f := by
  induction items with
  | nil => rfl
  | cons a rest ih =>
      have ha := hf a
      rw [List.flatMap_cons]
      cases hmark : mark a with
      | true =>
          -- A mark ends both lists.
          rw [if_pos hmark] at ha
          obtain ⟨b, hb, hmark'⟩ := ha
          simp [hb, hmark, hmark']
      | false =>
          rw [if_neg (by simp [hmark])] at ha
          have hall : ∀ b ∈ f a, (!mark' b) = true := fun b hb => by rw [ha b hb]; rfl
          rw [List.takeWhile_append_of_pos hall, ih]
          simp [hmark]

/-- What stands before the first cut belongs to the first piece. -/
theorem splitOnP_append {p : β → Bool} {front : List β} (h : ∀ b ∈ front, p b = false)
    (rest : List β) : (front ++ rest).splitOnP p = (rest.splitOnP p).modifyHead (front ++ ·) := by
  induction front with
  | nil =>
      show rest.splitOnP p = (rest.splitOnP p).modifyHead id
      rw [List.modifyHead_id]
      rfl
  | cons b front ih =>
      obtain ⟨hb, hfront⟩ := List.forall_mem_cons.mp h
      rw [List.cons_append, List.splitOnP_cons_eq_if_modifyHead, hb, ih hfront,
        List.modifyHead_modifyHead]
      rfl

/-- A list is cut at the same marks before and after its items give way. -/
theorem splitOnP_flatMap (hf : KeepsMarks mark mark' f) (items : List α) :
    (items.flatMap f).splitOnP mark' = (items.splitOnP mark).map (·.flatMap f) := by
  induction items with
  | nil => rfl
  | cons a rest ih =>
      have ha := hf a
      rw [List.flatMap_cons, List.splitOnP_cons_eq_if_modifyHead]
      cases hmark : mark a with
      | true =>
          rw [if_pos hmark] at ha
          obtain ⟨b, hb, hmark'⟩ := ha
          rw [hb, List.singleton_append, List.splitOnP_cons_eq_if_modifyHead, hmark', ih]
          rfl
      | false =>
          rw [if_neg (by simp [hmark])] at ha
          rw [splitOnP_append ha, ih]
          -- What the item gives goes to the front of the first part.
          cases hsplit : rest.splitOnP mark with
          | nil => exact absurd hsplit (List.splitOnP_ne_nil _ _)
          | cons first others => rfl

/-- What is between marks is in the list. -/
theorem mem_of_mem_splitOnP {p : α → Bool} {items part : List α} (h : part ∈ items.splitOnP p)
    {a : α} (ha : a ∈ part) : a ∈ items := by
  induction items generalizing part with
  | nil =>
      obtain rfl := List.mem_singleton.mp h
      exact ha
  | cons first rest ih =>
      rw [List.splitOnP_cons_eq_if_modifyHead] at h
      split at h
      · rcases List.mem_cons.mp h with rfl | h
        · cases ha
        · exact List.mem_cons_of_mem _ (ih h ha)
      · cases hsplit : rest.splitOnP p with
        | nil => exact absurd hsplit (List.splitOnP_ne_nil _ _)
        | cons head others =>
            rw [hsplit] at h ih
            rcases List.mem_cons.mp h with rfl | h
            · rcases List.mem_cons.mp ha with rfl | ha
              · exact List.mem_cons_self
              · exact List.mem_cons_of_mem _ (ih List.mem_cons_self ha)
            · exact List.mem_cons_of_mem _ (ih (List.mem_cons_of_mem _ h) ha)

end Marks

/-! ### Items -/

/-- What stands at one place of a template: a character of its literal text or a placeholder. -/
inductive Item where
  | char (c : Char)
  | hole (name : List Char)
deriving DecidableEq, Repr

/-- The items of a piece. -/
def Piece.items : Piece → List Item
  | .literal text => text.map .char
  | .placeholder name => [.hole name]

/-- The items of a template. -/
def items (template : String) : List Item :=
  (pieces template.toList).flatMap Piece.items

/-- Whether the item is a literal character of that kind. -/
def Item.isChar (kind : Char → Bool) : Item → Bool
  | .char c => kind c
  | .hole _ => false

/-- The text of an item with its placeholder filled. -/
def Item.filled (arguments : Arguments) : Item → List Char
  | .char c => [c]
  | .hole name => (Piece.filled arguments (.placeholder name)).toList

/-- A segment of a template. -/
abbrev Segment := List Item

/-- The part of a template that becomes a path. -/
def route (template : String) : List Item :=
  (items template).takeWhile fun item => !item.isChar Http.endsPath

/-- The segments of a template. -/
def segments (template : String) : List Segment :=
  (route template).splitOnP (·.isChar Http.isSlash)

namespace Segment

/-- The segment is literal. -/
def isFixed (segment : Segment) : Bool :=
  segment.all (·.isChar fun _ => true)

/-- The text of a segment with its placeholders filled. -/
def text (arguments : Arguments) (segment : Segment) : List Char :=
  segment.flatMap (Item.filled arguments)

/-- A literal segment, as a segment of a template. -/
def ofText (text : List Char) : Segment :=
  text.map .char

/-- The step that a segment is by itself. Only a literal segment is one. -/
def step? (segment : Segment) : Option Http.Step :=
  if segment.isFixed then Http.step? (segment.text []) else none

end Segment

variable {arguments : Arguments}

/-- A placeholder is filled with an encoded text, or with nothing. -/
theorem percentText_filled (name : List Char) :
    Text.PercentText (Item.filled arguments (.hole name)) := by
  show Text.PercentText ((filling? arguments name).getD "").toList
  cases hfilling : filling? arguments name with
  | none => exact .nil
  | some text =>
      obtain ⟨value, -, -, rfl⟩ := filling?_eq_some_iff.mp hfilling
      exact Text.percentText_percentEncode _

/-- Filling makes no character of a kind that no encoded text has. -/
theorem keepsMarks_filled {kind : Char → Bool}
    (hkind : ∀ c, kind c = true → Text.isUnreserved c = false ∧ c ≠ '%') :
    KeepsMarks (Item.isChar kind) kind (Item.filled arguments) := by
  intro item
  cases item with
  | char c =>
      cases hc : kind c with
      | true => simp [Item.isChar, Item.filled, hc]
      | false => simp [Item.isChar, Item.filled, hc]
  | hole name =>
      -- Such a character would be in an encoded text.
      intro c hmem
      by_contra hc
      obtain ⟨hreserved, hpercent⟩ := hkind c (by simpa using hc)
      exact (percentText_filled name).not_mem hreserved hpercent hmem

/-- Filling puts no end of a path into one. -/
theorem keepsMarks_endsPath :
    KeepsMarks (Item.isChar Http.endsPath) Http.endsPath (Item.filled arguments) := by
  refine keepsMarks_filled fun c hc => ?_
  simp only [Http.endsPath, Bool.or_eq_true, beq_iff_eq] at hc
  rcases hc with rfl | rfl <;> decide

/-- Filling puts no slash into a path. -/
theorem keepsMarks_isSlash :
    KeepsMarks (Item.isChar Http.isSlash) Http.isSlash (Item.filled arguments) := by
  refine keepsMarks_filled fun c hc => ?_
  simp only [Http.isSlash, Bool.or_eq_true, beq_iff_eq] at hc
  rcases hc with rfl | rfl <;> decide

/-! ### Filled templates -/

/-- A filled path is the text of the items of its template. -/
theorem toList_of_fill {template path : String} (h : fill template arguments = .ok path) :
    path.toList = (items template).flatMap (Item.filled arguments) := by
  obtain ⟨-, rfl⟩ := fill_eq_ok_iff.mp h
  rw [String.toList_join, items, List.flatMap_assoc, List.flatMap_map]
  refine List.flatMap_congr fun piece _ => ?_
  cases piece with
  | literal text =>
      show (String.ofList text).toList = (text.map Item.char).flatMap (Item.filled arguments)
      rw [String.toList_ofList, List.flatMap_map]
      exact (List.flatMap_singleton' text).symm
  | placeholder name => exact (List.flatMap_singleton _ _).symm

/-- The segments of a filled path are those of its template, filled. -/
theorem segments_of_fill {template path : String} (h : fill template arguments = .ok path) :
    (path.toList.takeWhile fun c => !Http.endsPath c).splitOnP Http.isSlash
      = (segments template).map (Segment.text arguments) := by
  rw [toList_of_fill h, takeWhile_flatMap keepsMarks_endsPath, segments, route,
    splitOnP_flatMap keepsMarks_isSlash]
  rfl

/-- A placeholder among the items of a template is one that filling looks up. -/
theorem mem_lookedUp_of_mem_items {template : String} {name : List Char}
    (h : Item.hole name ∈ items template) : String.ofList name ∈ lookedUp template := by
  obtain ⟨piece, hpiece, hitem⟩ := List.mem_flatMap.mp h
  cases piece with
  | literal text =>
      obtain ⟨c, -, hc⟩ := List.mem_map.mp hitem
      cases hc
  | placeholder other =>
      cases List.mem_singleton.mp hitem
      exact mem_lookedUp_iff.mpr (by simpa using hpiece)

/-- A segment that is one placeholder is filled with an argument that is given. -/
theorem exists_value_of_fill {template path : String} (h : fill template arguments = .ok path)
    {name : List Char} (hname : [Item.hole name] ∈ segments template) :
    ∃ value, Dict.find? (String.ofList name) arguments = some value ∧ value.isNull = false ∧
      Segment.text arguments [.hole name] = (Text.percentEncode value.plainText).toList := by
  have hitem : Item.hole name ∈ items template :=
    List.takeWhile_subset _ (mem_of_mem_splitOnP hname (List.mem_singleton_self _))
  have hgiven := (fill_eq_ok_iff.mp h).1 _ (mem_lookedUp_of_mem_items hitem)
  obtain ⟨value, hfind, hnull⟩ := Arguments.isGiven_iff.mp hgiven
  refine ⟨value, hfind, hnull, ?_⟩
  rw [Segment.text, List.flatMap_singleton, Item.filled, filled_placeholder hfind hnull]

/-! ### Steps in filled templates -/

/-- A literal segment has the same text whatever the arguments are. -/
theorem text_eq_of_isFixed {segment : Segment} (h : segment.isFixed = true) :
    segment.text arguments = segment.text [] := by
  refine List.flatMap_congr fun item hitem => ?_
  have hchar := List.all_eq_true.mp h item hitem
  cases item with
  | char c => rfl
  | hole name => cases hchar

/-- A segment without holes is its own text. -/
theorem text_ofText (text : List Char) : (Segment.ofText text).text arguments = text := by
  rw [Segment.text, Segment.ofText, List.flatMap_map]
  exact List.flatMap_singleton' text

/-- Where no placeholder makes a step, the steps of a filled path are those of its template: they
can be taken before it is filled or afterwards. -/
theorem takeSteps_text {parts : List Segment}
    (h : ∀ segment ∈ parts, segment.isFixed = false → Http.step? (segment.text arguments) = none)
    (before : List (List Char)) :
    Http.takeSteps before (parts.map (Segment.text arguments))
      = (Http.walk Segment.step? [] (before.map Segment.ofText) parts).map
          (Segment.text arguments) := by
  have hsame : ∀ segment ∈ parts,
      Http.step? (segment.text arguments) = segment.step? := by
    intro segment hmem
    unfold Segment.step?
    cases hfixed : segment.isFixed with
    | true => rw [if_pos rfl, text_eq_of_isFixed hfixed]
    | false => exact h segment hmem hfixed
  have hbefore : (before.map Segment.ofText).map (Segment.text arguments) = before := by
    rw [List.map_map]
    exact List.map_id'' text_ofText before
  rw [Http.takeSteps_eq_walk, ← Http.map_walk hsame, hbefore]
  rfl

/-- A placeholder beside literal text may make a step with it. -/
example : Http.step? (Segment.text [("x", .string ".")] [.char '.', .hole ['x']]) = some .up := by
  decide +kernel

end Template
end DeclaredApi
