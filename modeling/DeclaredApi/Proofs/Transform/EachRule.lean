import DeclaredApi.Proofs.Path.Diverge
import DeclaredApi.Proofs.Path.Joined
import DeclaredApi.Proofs.Path.Replace
import DeclaredApi.Proofs.Transform.InTurn

/-!
# `DeclaredApi.Proofs.Transform.EachRule`: a rule for the elements of an array

A rule whose two paths share the text before their first marker moves inside every element of the
array there (`move_each`). What it does to an element is what a step does that has one rule, with
the two texts behind the marker (`renamed_singleton_eq_spread`): through further arrays, and with
the further markers of both texts.

The elements are put back as the array they were in, and nothing else is touched
(`moveEach_eq_ok_iff`). `TransformStep.apply_each_rule` is the law for a step of one such rule.
-/

set_option autoImplicit false

namespace DeclaredApi

open DeclaredApi.Path (wildcardDot)

variable {head source target : List Char}

/-! ### Moves inside elements -/

/-- Behind a plain path and a marker, a rule goes on inside the elements. -/
theorem move_each (hhead : Path.Plain head) (hne : source ≠ target) :
    move (head ++ wildcardDot ++ source) (head ++ wildcardDot ++ target)
      = .each head (move source target) := by
  have hdiffers : head ++ wildcardDot ++ source ≠ head ++ wildcardDot ++ target := fun heq =>
    hne (List.append_cancel_left heq)
  have hmarker : Path.isWildcard (head ++ wildcardDot ++ source) = true := by
    refine Path.isWildcard_of_not_plain fun hplain => hplain ?_
    exact Path.wildcard_prefix_wildcardDot.isInfix.trans (List.infix_append head wildcardDot source)
  rw [move, if_neg hdiffers, hmarker, Bool.true_or, if_pos rfl]
  split
  · next hsource htarget =>
      rw [hhead.cut?_each] at hsource htarget
      cases hsource
      cases htarget
      rw [if_pos rfl]
  · next hnone =>
      exact absurd (hhead.cut?_each target) (hnone _ _ _ _ (hhead.cut?_each source))

/-- A move inside elements is one behind a marker on both sides. -/
theorem eq_of_move_eq_each {inner : Move} (h : move source target = .each head inner) :
    ∃ sourceTail targetTail, source = head ++ wildcardDot ++ sourceTail ∧
      target = head ++ wildcardDot ++ targetTail := by
  rw [move] at h
  split_ifs at h
  split at h
  · next hsource htarget =>
      split at h
      · next heq =>
          subst heq
          cases h
          exact ⟨_, _, Text.cut?_eq_some_imp hsource, Text.cut?_eq_some_imp htarget⟩
      · cases h
  · cases h

namespace Move

/-- Nothing moves in any item. -/
theorem mapM_spread_stay (items : List Json) : items.mapM (spread .stay) = .ok items :=
  mapM_eq_ok_iff.2 (List.forall₂_same.2 fun _ _ => rfl)

/-- A move that does not start with a marker is spread over the elements of an array. -/
theorem spread_array {m : Move} (h : ∀ inner, m ≠ .each [] inner) (items : List Json) :
    m.spread (.array items) = (items.mapM m.spread).map .array := by
  have hthrough : ∀ f : Json → Except TransformError Json,
      (Json.array items).throughArrays f = (items.mapM (Json.throughArrays f)).map .array := by
    intro f
    rw [Json.throughArrays, Json.throughItems_eq_mapM]
  match m with
  | .stay =>
      rw [mapM_spread_stay]
      rfl
  | .refused _ _ | .member _ _ | .place _ _ | .each (_ :: _) _ => exact hthrough _
  | .each [] inner => exact absurd rfl (h inner)

/-- In an object a move is done at once. -/
theorem spread_object (m : Move) (members : Dict Json) :
    m.spread (.object members) = m.apply (.object members) := by
  match m with
  | .stay | .refused _ _ | .member _ _ | .place _ _ | .each [] _ | .each (_ :: _) _ => rfl

/-- Nothing moves in a value that is neither an array nor an object. -/
theorem spread_leaf (m : Move) {data : Json} (h : data.isContainer = false) :
    m.spread data = .ok data := by
  match m with
  | .stay => rfl
  | .refused _ _ | .member _ _ | .place _ _ | .each [] _ | .each (_ :: _) _ =>
      cases data <;> first | rfl | cases h

end Move

namespace Json

/-- A rule loses its markers exactly if both sides start with one. -/
theorem stripRule?_eq_some_iff {rule inner : PathPair} :
    stripRule? rule = some inner ↔
      rule.1 = wildcardDot ++ inner.1 ∧ rule.2 = wildcardDot ++ inner.2 := by
  obtain ⟨source, target⟩ := rule
  obtain ⟨source', target'⟩ := inner
  simp only [stripRule?, Path.stripWildcard?, Option.bind_eq_bind, Option.bind_eq_some_iff,
    List.isPrefixOf?_eq_some_iff_append_eq, Option.pure_def, Option.some.injEq, Prod.mk.injEq]
  constructor
  · rintro ⟨_, rfl, _, rfl, rfl, rfl⟩
    exact ⟨rfl, rfl⟩
  · rintro ⟨rfl, rfl⟩
    exact ⟨_, rfl, _, rfl, rfl, rfl⟩

/-- A rule alone does what its move does, spread over arrays. -/
theorem renamed_singleton_eq_spread (rule : PathPair) (data : Json) :
    data.renamed [rule] = (move rule.1 rule.2).spread data := by
  induction data using inductionOnElements generalizing rule with
  | items items ih =>
      rw [renamed, renamedItems_eq_mapM, elementRules_singleton]
      cases hstrip : stripRule? rule with
      | some inner =>
          -- Both sides lose a marker, so the move is one inside the elements.
          obtain ⟨hsource, htarget⟩ := stripRule?_eq_some_iff.1 hstrip
          rw [Option.getD_some, mapM_congr fun item hmem => ih item hmem inner, hsource, htarget]
          by_cases hne : inner.1 = inner.2
          · rw [hne, move, if_pos rfl, move, if_pos rfl, Move.mapM_spread_stay]
            rfl
          · have hplain : Path.Plain [] := by decide
            have hmove : move (wildcardDot ++ inner.1) (wildcardDot ++ inner.2)
                = .each [] (move inner.1 inner.2) := move_each hplain hne
            rw [hmove]
            rfl
      | none =>
          rw [Option.getD_none, mapM_congr fun item hmem => ih item hmem rule, Move.spread_array]
          intro inner hmove
          obtain ⟨sourceTail, targetTail, hsource, htarget⟩ := eq_of_move_eq_each hmove
          have hsome : stripRule? rule = some (sourceTail, targetTail) :=
            stripRule?_eq_some_iff.2 ⟨hsource, htarget⟩
          rw [hstrip] at hsome
          cases hsome
  | other data hdata =>
      cases data with
      | array items => exact absurd rfl (hdata items)
      | object members =>
          rw [renamed_object, List.foldlM_cons, Move.spread_object]
          exact bind_pure _
      | _ => exact (Move.spread_leaf _ rfl).symm

variable {f : Json → Except TransformError Json} {data result : Json}

/-- Without an array before the marker the data stay as they are. -/
theorem moveEach_of_not_array (hhead : Path.Plain head)
    (hget : ∀ items, data.get? head ≠ some (.array items)) : data.moveEach head f = .ok data := by
  rw [moveEach, hhead.isWildcard, if_neg Bool.false_ne_true]
  split
  · next items hitems => exact absurd ((get?_eq_getAt? hhead data).trans hitems) (hget items)
  · rfl

/-- What is put in the place of an array is assigned there. -/
theorem exists_putBack (hhead : Path.Plain head) {items : List Json}
    (hget : data.get? head = some (.array items)) (changed : List Json) :
    ∃ written, assignAt (.array changed) ((Path.keys head).map .key) data = (written, none) ∧
      (data.modifyAt? (fun _ => some (.array changed)) (Path.steps head)).getD data = written := by
  rw [get?_of_plain hhead] at hget
  obtain ⟨written, hassign, hmodify⟩ :=
    exists_assignAt_of_getAt? hget (fun _ => some (.array changed)) rfl
  have hreplace := replace?_of_plain hhead data (.array changed)
  rw [replace?, hhead.isWildcard, if_neg Bool.false_ne_true, hmodify] at hreplace
  exact ⟨written, hassign, by rw [hreplace, Option.getD_some]⟩

/-- The elements of an array are changed, and put back as the array they were in. -/
theorem moveEach_eq_ok_iff (hhead : Path.Plain head) {items : List Json}
    (hget : data.get? head = some (.array items)) :
    data.moveEach head f = .ok result ↔
      ∃ changed, List.Forall₂ (fun item value => f item = .ok value) items changed ∧
        assignAt (.array changed) ((Path.keys head).map .key) data = (result, none) := by
  have heq : data.moveEach head f
      = items.mapM f >>= fun changed =>
          .ok ((data.modifyAt? (fun _ => some (.array changed)) (Path.steps head)).getD data) := by
    have hsteps := (get?_eq_getAt? hhead data).symm.trans hget
    rw [moveEach, hhead.isWildcard, if_neg Bool.false_ne_true, hsteps]
    rfl
  rw [heq]
  constructor
  · intro h
    obtain ⟨changed, hchanged, h⟩ := exists_of_bind_ok h
    obtain ⟨written, hassign, hwritten⟩ := exists_putBack hhead hget changed
    rw [hwritten] at h
    cases h
    exact ⟨changed, mapM_eq_ok_iff.1 hchanged, hassign⟩
  · rintro ⟨changed, hchanged, hassign⟩
    obtain ⟨written, hassign', hwritten⟩ := exists_putBack hhead hget changed
    rw [hassign] at hassign'
    cases hassign'
    rw [mapM_eq_ok_iff.2 hchanged]
    exact congrArg Except.ok hwritten

end Json

namespace TransformStep

/-- A step with one rule for the elements of an array. If there is no array before the marker, the
data stay as they are. Otherwise the step succeeds exactly if the rule behind the marker succeeds on
every element, and then the array has their results in their places, and every plain path that
diverges from the path of the array leads to what it led to before. -/
theorem apply_each_rule {head source target : String} (hhead : Path.Plain head.toList)
    (hne : source ≠ target) (members : Dict Json) :
    let data := Json.object members
    let step : TransformStep :=
      { rename := some [⟨head ++ "[*]." ++ source, head ++ "[*]." ++ target⟩] }
    let inner : TransformStep := { rename := some [⟨source, target⟩] }
    ((∀ items, data.get? head.toList ≠ some (.array items)) → step.apply data = .ok data) ∧
    ∀ items, data.get? head.toList = some (.array items) →
      ((∃ result, step.apply data = .ok result) ↔
        ∀ item ∈ items, ∃ value, inner.apply item = .ok value) ∧
      ∀ result, step.apply data = .ok result →
        (∃ changed, result.get? head.toList = some (.array changed) ∧
          List.Forall₂ (fun item value => inner.apply item = .ok value) items changed) ∧
        ∀ other, Path.Plain other → Path.Diverge head.toList other →
          result.get? other = data.get? other := by
  intro data step inner
  have hmarker : "[*].".toList = wildcardDot := rfl
  have htails : source.toList ≠ target.toList := fun heq => hne (String.toList_injective heq)
  -- A step of one rule is the move of that rule, in the object and in each element.
  have hinner : ∀ item, inner.apply item
      = (move source.toList target.toList).spread item := fun item =>
    (apply_rename (List.cons_ne_nil _ _) item).trans (Json.renamed_singleton_eq_spread _ item)
  have hstep : step.apply data
      = data.moveEach head.toList (move source.toList target.toList).spread := by
    rw [apply_rename (List.cons_ne_nil _ _), pathPairs, List.map_singleton,
      Json.renamed_singleton_eq_spread, String.toList_append, String.toList_append,
      String.toList_append, String.toList_append, hmarker, move_each hhead htails,
      Move.spread_object]
    rfl
  rw [hstep]
  refine ⟨Json.moveEach_of_not_array hhead, fun items hitems => ⟨?_, fun result h => ?_⟩⟩
  · simp only [hinner, ← exists_forall₂_iff, Json.moveEach_eq_ok_iff hhead hitems]
    constructor
    · rintro ⟨result, changed, hchanged, -⟩
      exact ⟨changed, hchanged⟩
    · rintro ⟨changed, hchanged⟩
      obtain ⟨written, hassign, -⟩ := Json.exists_putBack hhead hitems changed
      exact ⟨written, changed, hchanged, hassign⟩
  · obtain ⟨changed, hchanged, hassign⟩ := (Json.moveEach_eq_ok_iff hhead hitems).1 h
    refine ⟨⟨changed, ?_, ?_⟩, fun other hother hdiverge => ?_⟩
    · rw [Json.get?_of_plain hhead]
      exact Json.getAt?_assignAt hassign
    · simpa only [hinner] using hchanged
    · -- What was put back is an assignment at the head, and that leaves all other slots.
      obtain ⟨shared, key, key', rest, rest', hkeys, hkeys', hkey, hposition⟩ := hdiverge
      rw [hkeys] at hassign
      rw [Json.get?_of_plain hother, Json.get?_of_plain hother, hkeys']
      exact Json.getAt?_assignAt_of_diverge
        (fun root => Json.slot_ne_of_apart root hkey hposition) hassign

/-- Orders as lists of lines. -/
def lineOrders : Dict Json :=
  [("note", .bool true),
    ("orders", .array [.array [.object [("sku", .string "pen")], .null], .array []])]

/-- The lines of all orders are changed, and the note stays. -/
theorem apply_each_rule_of_lineOrders :
    Path.Plain "orders".toList ∧ "[*].sku" ≠ "[*].item.id" ∧ ∃ result,
      TransformStep.apply
        { rename := some
            [⟨"orders" ++ "[*]." ++ "[*].sku", "orders" ++ "[*]." ++ "[*].item.id"⟩] }
        (.object lineOrders) = .ok result ∧
      result.get? "orders".toList
        = some (.array [.array [.object [("item", .object [("id", .string "pen")])], .null],
            .array []]) ∧
      result.get? "note".toList = some (.bool true) := by
  have hplain : Path.Plain "orders".toList := by decide
  have hne : "[*].sku" ≠ "[*].item.id" := by decide
  have horders : (Json.object lineOrders).get? "orders".toList
      = some (.array [.array [.object [("sku", .string "pen")], .null], .array []]) := by
    with_unfolding_all rfl
  have hfirst : TransformStep.apply { rename := some [⟨"[*].sku", "[*].item.id"⟩] }
      (.array [.object [("sku", .string "pen")], .null])
      = .ok (.array [.object [("item", .object [("id", .string "pen")])], .null]) := by
    with_unfolding_all rfl
  have hsecond : TransformStep.apply { rename := some [⟨"[*].sku", "[*].item.id"⟩] } (.array [])
      = .ok (.array []) := by
    with_unfolding_all rfl
  have hnote : (Json.object lineOrders).get? "note".toList = some (.bool true) := by
    with_unfolding_all rfl
  have hdiverge : Path.Diverge "orders".toList "note".toList := by
    refine ⟨[], "orders", "note", [], [], by with_unfolding_all rfl, by with_unfolding_all rfl,
      by decide, fun position hposition => ?_⟩
    rw [show Path.position? "orders".toList = none by decide] at hposition
    cases hposition
  obtain ⟨-, harray⟩ := apply_each_rule hplain hne lineOrders
  obtain ⟨hsucceeds, hresult⟩ := harray _ horders
  obtain ⟨result, happly⟩ := hsucceeds.2
    (List.forall_mem_cons.2 ⟨⟨_, hfirst⟩, List.forall_mem_singleton.2 ⟨_, hsecond⟩⟩)
  obtain ⟨⟨changed, hchanged, hitems⟩, hother⟩ := hresult result happly
  have hexpected : List.Forall₂ (fun item value =>
      TransformStep.apply { rename := some [⟨"[*].sku", "[*].item.id"⟩] } item = .ok value)
      [.array [.object [("sku", .string "pen")], .null], .array []]
      [.array [.object [("item", .object [("id", .string "pen")])], .null], .array []] :=
    .cons hfirst (.cons hsecond .nil)
  have heq := eq_of_forall₂_ok
    (fun _ _ _ _ h h' => Except.ok.inj (h.symm.trans h')) hitems hexpected
  rw [heq] at hchanged
  exact ⟨hplain, hne, result, happly, hchanged, (hother _ (by decide) hdiverge).trans hnote⟩

end TransformStep
end DeclaredApi
