import DeclaredApi.Proofs.Transform.InTurn

/-!
# `DeclaredApi.Proofs.Transform.ElementStep`: a step over an array is a step for each element

Over an array both halves of a step go to the elements, and each of them decides for itself whether
its paths lose the markers they start with. `TransformStep.forElements` is the step with the
paths as the elements see them. The halves run one after the other over the whole array, and
each element sees them one after the other as well (`apply_array_eq_ok_iff`).
-/

set_option autoImplicit false

namespace DeclaredApi

namespace Path

/-- The path without what would be the marker and the dot at its start. -/
def unmarked (path : String) : String :=
  String.ofList (path.toList.drop wildcardDot.length)

/-- The path starts with a marker and a dot. -/
def Marked (path : String) : Prop :=
  wildcardDot <+: path.toList

instance (path : String) : Decidable (Marked path) :=
  inferInstanceAs (Decidable (_ <+: _))

/-- A path that starts with a marker loses it. -/
theorem stripWildcard?_of_marked {path : String} (h : Marked path) :
    stripWildcard? path.toList = some (unmarked path).toList := by
  obtain ⟨rest, hrest⟩ := h
  rw [unmarked, String.toList_ofList, ← hrest, List.drop_left]
  exact List.isPrefixOf?_eq_some_iff_append_eq.2 rfl

/-- Any other path has none to lose. -/
theorem stripWildcard?_of_not_marked {path : String} (h : ¬ Marked path) :
    stripWildcard? path.toList = none := by
  rw [Option.eq_none_iff_forall_ne_some]
  exact fun rest hrest => h ⟨rest, List.append_eq_of_isPrefixOf?_eq_some hrest⟩

end Path

open DeclaredApi.Path (Marked unmarked stripWildcard?_of_marked stripWildcard?_of_not_marked)

/-- The rule without the markers that both its paths start with. -/
def RenameRule.unmarked (rule : RenameRule) : RenameRule :=
  ⟨Path.unmarked rule.source, Path.unmarked rule.target⟩

/-- Both paths of the rule start with a marker. -/
def RenameRule.Marked (rule : RenameRule) : Prop :=
  Path.Marked rule.source ∧ Path.Marked rule.target

instance (rule : RenameRule) : Decidable rule.Marked :=
  inferInstanceAs (Decidable (_ ∧ _))

/-! ### Markers that all lose or none does -/

section ShortenAll

variable {α β : Type} (Strips : α → Prop) [DecidablePred Strips] (short : α → α)

/-- The items made short, if that goes for all of them, and otherwise the items as they are. -/
def shortenAll (items : List α) : List α :=
  if ∀ item ∈ items, Strips item then items.map short else items

/-- No item gets lost when all are made short. -/
theorem shortenAll_eq_nil_iff {items : List α} :
    shortenAll Strips short items = [] ↔ items = [] := by
  rw [shortenAll]
  split
  · exact List.map_eq_nil_iff
  · exact Iff.rfl

/-- Items are made short on their texts. -/
theorem mapM_getD_map (text : α → β) (strip? : β → Option β)
    (hstrips : ∀ item, Strips item → strip? (text item) = some (text (short item)))
    (hkeeps : ∀ item, ¬ Strips item → strip? (text item) = none) (items : List α) :
    ((items.map text).mapM strip?).getD (items.map text)
      = (shortenAll Strips short items).map text := by
  rw [shortenAll]
  split
  · next hall =>
      have hsome : ∀ item ∈ items, strip? (text item) = some (text (short item)) :=
        fun item hmem => hstrips item (hall item hmem)
      rw [mapM_getD_of_isSome, List.map_map, List.map_map]
      · refine List.map_congr_left fun item hmem => ?_
        simp only [Function.comp_apply, hsome item hmem, Option.getD_some]
      · intro item hmem
        obtain ⟨inner, hinner, rfl⟩ := List.mem_map.1 hmem
        rw [hsome inner hinner]
        rfl
  · next hnot =>
      obtain ⟨item, hitem⟩ := not_forall.1 hnot
      obtain ⟨hmem, hitem⟩ := Classical.not_imp.1 hitem
      exact mapM_getD_of_none (List.mem_map_of_mem hmem) (hkeeps item hitem)

end ShortenAll

namespace TransformStep

variable {step : TransformStep} {items : List Json} {result : Json}

/-- The step for the elements of an array. The fields lose the marker that they start with, if all
of them start with one, and so do the rules, if all of them do so on both sides. -/
def forElements (step : TransformStep) : TransformStep where
  fields := step.fields.map (shortenAll Marked unmarked)
  rename := step.rename.map (shortenAll RenameRule.Marked RenameRule.unmarked)

/-- The fields for elements are the fields made short. -/
theorem elementFields_eq (fields : List String) :
    Json.elementFields (fields.map String.toList)
      = (shortenAll Marked unmarked fields).map String.toList :=
  mapM_getD_map Marked unmarked String.toList Path.stripWildcard?
    (fun _ => stripWildcard?_of_marked) (fun _ => stripWildcard?_of_not_marked) fields

/-- The rules for elements are the rules made short. -/
theorem elementRules_eq (rules : List RenameRule) :
    elementRules (pathPairs rules)
      = pathPairs (shortenAll RenameRule.Marked RenameRule.unmarked rules) := by
  refine mapM_getD_map RenameRule.Marked RenameRule.unmarked
    (fun rule => (rule.source.toList, rule.target.toList)) Json.stripRule?
    (fun rule hmarked => ?_) (fun rule hnot => ?_) rules
  · rw [Json.stripRule?, stripWildcard?_of_marked hmarked.1, stripWildcard?_of_marked hmarked.2]
    rfl
  · rw [Json.stripRule?]
    by_cases hsource : Marked rule.source
    · have htarget : ¬ Marked rule.target := fun htarget => hnot ⟨hsource, htarget⟩
      rw [stripWildcard?_of_marked hsource, stripWildcard?_of_not_marked htarget]
      rfl
    · rw [stripWildcard?_of_not_marked hsource]
      rfl

/-! ### The halves of a step -/

/-- A half of a step lists nothing, and then that of the step for the elements does so too, or it
lists something. -/
theorem listed_cases {α : Type} (listed : Option (List α)) (Strips : α → Prop)
    [DecidablePred Strips] (short : α → α) :
    (listed.getD [] = [] ∧ (listed.map (shortenAll Strips short)).getD [] = []) ∨
      ∃ items, listed = some items ∧ items ≠ [] := by
  match listed with
  | none => exact Or.inl ⟨rfl, rfl⟩
  | some [] => exact Or.inl ⟨rfl, (shortenAll_eq_nil_iff Strips short).2 rfl⟩
  | some (item :: rest) => exact Or.inr ⟨_, rfl, List.cons_ne_nil _ _⟩

/-- A half that lists nothing leaves an array, and all of its elements. -/
theorem ok_array_iff :
    Except.ok (ε := TransformError) (Json.array items) = .ok result ↔
      ∃ kept, result = .array kept ∧
        List.Forall₂ (fun item value => Except.ok (ε := TransformError) item = .ok value)
          items kept := by
  constructor
  · intro h
    cases h
    exact ⟨items, rfl, List.forall₂_same.2 fun _ _ => rfl⟩
  · rintro ⟨kept, rfl, hkept⟩
    have hsame : items = kept := List.forall₂_eq_eq_eq ▸ hkept.imp fun _ _ => Except.ok.inj
    rw [hsame]

/-- The step for the elements reduces each element as the step does in the array. -/
theorem reduce_array_eq_ok_iff :
    step.reduce (.array items) = .ok result ↔
      ∃ reduced, result = .array reduced ∧
        List.Forall₂ (fun item value => step.forElements.reduce item = .ok value)
          items reduced := by
  rcases listed_cases step.fields Marked unmarked with ⟨hnone, hinner⟩ | ⟨fields, hfields, hne⟩
  · have hinner : ∀ item, step.forElements.reduce item = .ok item := reduce_eq_ok hinner
    simp only [reduce_eq_ok hnone, hinner]
    exact ok_array_iff
  · have hinner : ∀ item, step.forElements.reduce item
        = item.extract (Json.elementFields (fields.map String.toList)) := by
      intro item
      rw [elementFields_eq]
      refine reduce_eq_extract (by rw [forElements, hfields]; rfl) (fun hnil => hne ?_) item
      exact (shortenAll_eq_nil_iff Marked unmarked).1 hnil
    simp only [reduce_eq_extract hfields hne, hinner]
    exact Json.extract_array_eq_ok_iff

/-- The step for the elements renames in each element as the step does in the array. -/
theorem relabel_array_eq_ok_iff :
    step.relabel (.array items) = .ok result ↔
      ∃ changed, result = .array changed ∧
        List.Forall₂ (fun item value => step.forElements.relabel item = .ok value)
          items changed := by
  rcases listed_cases step.rename RenameRule.Marked RenameRule.unmarked with
    ⟨hnone, hinner⟩ | ⟨rules, hrules, hne⟩
  · have hinner : ∀ item, step.forElements.relabel item = .ok item := relabel_eq_ok hinner
    simp only [relabel_eq_ok hnone, hinner]
    exact ok_array_iff
  · have hinner : ∀ item, step.forElements.relabel item
        = item.renamed (elementRules (pathPairs rules)) := by
      intro item
      rw [elementRules_eq]
      refine relabel_eq_renamed (by rw [forElements, hrules]; rfl) (fun hnil => hne ?_) item
      exact (shortenAll_eq_nil_iff RenameRule.Marked RenameRule.unmarked).1 hnil
    simp only [relabel_eq_renamed hrules hne, hinner]
    exact Json.renamed_array_eq_ok_iff

/-! ### The whole step -/

/-- The result for an array is the array of the results for its elements. -/
theorem apply_array_eq_ok_iff :
    step.apply (.array items) = .ok result ↔
      ∃ results, result = .array results ∧
        List.Forall₂ (fun item value => step.forElements.apply item = .ok value)
          items results := by
  simp only [apply_eq]
  constructor
  · intro h
    obtain ⟨middle, hreduce, hrelabel⟩ := exists_of_bind_ok h
    obtain ⟨reduced, rfl, hreduced⟩ := reduce_array_eq_ok_iff.1 hreduce
    obtain ⟨results, rfl, hresults⟩ := relabel_array_eq_ok_iff.1 hrelabel
    exact ⟨results, rfl, forall₂_bind_ok hreduced hresults⟩
  · rintro ⟨results, rfl, hresults⟩
    obtain ⟨reduced, hreduced, hresults⟩ := exists_of_forall₂_bind_ok hresults
    rw [reduce_array_eq_ok_iff.2 ⟨reduced, rfl, hreduced⟩]
    exact relabel_array_eq_ok_iff.2 ⟨results, rfl, hresults⟩

/-- A step succeeds on an array exactly if the step for the elements succeeds on each of them, and
its result is the array of their results, in order. -/
theorem apply_each_element (step : TransformStep) (items : List Json) :
    ((∃ result, step.apply (.array items) = .ok result) ↔
      ∀ item ∈ items, ∃ value, step.forElements.apply item = .ok value) ∧
    ∀ result, step.apply (.array items) = .ok result ↔
      ∃ results, result = .array results ∧
        List.Forall₂ (fun item value => step.forElements.apply item = .ok value)
          items results := by
  refine ⟨?_, fun result => apply_array_eq_ok_iff⟩
  rw [← exists_forall₂_iff]
  constructor
  · rintro ⟨result, h⟩
    obtain ⟨results, -, hresults⟩ := apply_array_eq_ok_iff.1 h
    exact ⟨results, hresults⟩
  · rintro ⟨results, hresults⟩
    exact ⟨.array results, apply_array_eq_ok_iff.2 ⟨results, rfl, hresults⟩⟩

/-- The fields of items, of which one gets another name. Only the fields start with markers. -/
def itemStep : TransformStep where
  fields := some ["[*].sku", "[*].price"]
  rename := some [⟨"sku", "id"⟩]

/-- An item, a list of items, and a flag. -/
def mixedItems : List Json :=
  [.object [("note", .null), ("sku", .string "pen")], .array [.object [("price", .bool false)]],
    .bool true]

/-- The fields lose their markers for the elements, and the rule has none to lose. -/
theorem apply_each_element_of_mixedItems :
    (∀ item ∈ mixedItems, ∃ value, itemStep.forElements.apply item = .ok value) ∧
      itemStep.apply (.array mixedItems) = .ok (.array [.object [("id", .string "pen")],
        .array [.object [("price", .bool false)]], .bool true]) := by
  have hinner : itemStep.forElements
      = { fields := some ["sku", "price"], rename := some [⟨"sku", "id"⟩] } := by
    decide +kernel
  have hitem : itemStep.forElements.apply (.object [("note", .null), ("sku", .string "pen")])
      = .ok (.object [("id", .string "pen")]) := by
    rw [hinner]
    with_unfolding_all rfl
  have hlist : itemStep.forElements.apply (.array [.object [("price", .bool false)]])
      = .ok (.array [.object [("price", .bool false)]]) := by
    rw [hinner]
    with_unfolding_all rfl
  have hflag : itemStep.forElements.apply (.bool true) = .ok (.bool true) := by
    rw [hinner]
    with_unfolding_all rfl
  obtain ⟨hsucceeds, hresult⟩ := apply_each_element itemStep mixedItems
  have happly := (hresult _).2 ⟨_, rfl, .cons hitem (.cons hlist (.cons hflag .nil))⟩
  exact ⟨hsucceeds.1 ⟨_, happly⟩, happly⟩

end TransformStep
end DeclaredApi
