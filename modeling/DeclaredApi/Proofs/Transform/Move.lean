import DeclaredApi.Proofs.Path.Delete
import DeclaredApi.Proofs.Transform.Step

/-!
# `DeclaredApi.Proofs.Transform.Move`: what becomes of a value that is moved

A rule between two plain paths with a dot reads the value at its source, writes it at its target and
deletes the source (`RenameRule.MovesPlace.exists_written`). `TransformStep.get?_target_of_apply`
says what is read at the target then. The value is there, where the source and the target are places
apart in the object, or the source is the object itself, of which nothing is deleted. Where one of
the two paths leads to the place of the other, or below it, the deletion comes upon the value that
was just written:

* below the target it takes away a part of the value;
* at the target, or above it, it takes away all of the value.

`not_get?_target_of_apply` is such a rule: it moves a member into itself.
-/

set_option autoImplicit false

namespace DeclaredApi

/-- The rule is about two places: no marker occurs, and one of the paths has a dot. -/
structure RenameRule.MovesPlace (rule : RenameRule) : Prop where
  source_plain : Path.Plain rule.source.toList
  target_plain : Path.Plain rule.target.toList
  dotted : '.' ∈ rule.source.toList ∨ '.' ∈ rule.target.toList
  differs : rule.source ≠ rule.target

/-- Such a rule moves what is at a place. -/
theorem RenameRule.MovesPlace.move_eq {rule : RenameRule} (h : rule.MovesPlace) :
    move rule.source.toList rule.target.toList
      = .place rule.source.toList rule.target.toList := by
  have hne : rule.source.toList ≠ rule.target.toList := fun heq =>
    h.differs (String.toList_injective heq)
  have hplain :
      (Path.isWildcard rule.source.toList || Path.isWildcard rule.target.toList) = false := by
    rw [h.source_plain.isWildcard, h.target_plain.isWildcard]
    rfl
  have hdot : (rule.source.toList.contains '.' || rule.target.toList.contains '.') = true := by
    rw [Bool.or_eq_true, List.contains_iff_mem, List.contains_iff_mem]
    exact h.dotted
  rw [move, if_neg hne, hplain, if_neg Bool.false_ne_true, if_pos hdot]

/-- A step with one rule does to an object what the rule does. -/
theorem TransformStep.apply_singleton (rule : RenameRule) (members : Dict Json) :
    TransformStep.apply { rename := some [rule] } (.object members)
      = (move rule.source.toList rule.target.toList).apply (.object members) := by
  rw [apply_rename (List.cons_ne_nil _ _)]
  simp only [pathPairs, List.map_cons, List.map_nil, Json.renamed, List.foldlM_cons,
    List.foldlM_nil, bind_pure]

/-- A rule about two places writes what it finds at its target and deletes its source. -/
theorem RenameRule.MovesPlace.exists_written {rule : RenameRule} (h : rule.MovesPlace)
    {members : Dict Json} {value result : Json}
    (hget : (Json.object members).get? rule.source.toList = some value)
    (happly : TransformStep.apply { rename := some [rule] } (.object members) = .ok result) :
    ∃ written,
      Json.assignAt value ((Path.keys rule.target.toList).map .key) (.object members)
        = (written, none) ∧
      result = written.without (Path.keys rule.source.toList) := by
  have hmove :
      (Json.object members).movePlace rule.source.toList rule.target.toList = .ok result := by
    rwa [TransformStep.apply_singleton, h.move_eq] at happly
  rw [Json.movePlace, hget] at hmove
  obtain ⟨written, hplaced, rfl⟩ := exists_of_map_ok hmove
  obtain ⟨-, hassign⟩ := Json.assigned_eq_ok_iff.1 (Json.placed_eq_ok_iff.1 hplaced)
  exact ⟨written, hassign, Json.delete_of_plain h.source_plain written⟩

namespace Json

/-- One path leads to the place of the other in the data, or below it. -/
def Overlap (data : Json) (path path' : List Char) : Prop :=
  data.place (Path.keys path) <+: data.place (Path.keys path') ∨
    data.place (Path.keys path') <+: data.place (Path.keys path)

end Json

namespace TransformStep

/-- What is read at the target of a rule between two plain paths, one with a dot, after it has
moved a value. The value is read there, unless the paths overlap in the object and the source has
keys. Otherwise the value has lost what was deleted inside it, if the target lies above the source,
and is gone, if the source is the target or lies above it. -/
theorem get?_target_of_apply {rule : RenameRule} (h : rule.MovesPlace) {members : Dict Json}
    {value result : Json} (hget : (Json.object members).get? rule.source.toList = some value)
    (happly : TransformStep.apply { rename := some [rule] } (.object members) = .ok result) :
    let source := Path.keys rule.source.toList
    let target := Path.keys rule.target.toList
    (source = [] ∨ ¬ (Json.object members).Overlap rule.source.toList rule.target.toList →
      result.get? rule.target.toList = some value) ∧
    ((Json.object members).place target <+: (Json.object members).place source →
      target.length < source.length →
      result.get? rule.target.toList = some (value.without (source.drop target.length))) ∧
    ((Json.object members).place source <+: (Json.object members).place target → source ≠ [] →
      result.get? rule.target.toList = none ∨ result.get? rule.target.toList = some .null) := by
  intro source target
  obtain ⟨written, hassign, rfl⟩ := h.exists_written hget happly
  rw [Json.get?_of_plain h.source_plain] at hget
  rw [Json.get?_of_plain h.target_plain]
  refine ⟨?_, Json.getAt?_without_of_below hget hassign,
    Json.getAt?_without_of_above hget hassign⟩
  rintro (hroot | hapart)
  · -- Nothing is deleted of the object itself.
    have hwithout : written.without source = written := by
      rw [hroot]
      rfl
    show (written.without source).getAt? _ = _
    rw [hwithout]
    exact Json.getAt?_assignAt hassign
  · obtain ⟨habove, hbelow⟩ := not_or.1 hapart
    exact Json.getAt?_without_of_apart hget hassign habove hbelow

/-- A cart with two items. -/
def penCart : Dict Json :=
  [("items", .array [.object [("name", .string "pen")], .object [("name", .string "ink")]])]

/-- The name of the first item becomes the label of the second one. -/
def labelRule : RenameRule :=
  ⟨"items[0].name", "items.01.label"⟩

/-- The paths lead into different items, so the value is read at the target. -/
theorem get?_target_of_labelRule :
    ∃ result,
      TransformStep.apply { rename := some [labelRule] } (.object penCart) = .ok result ∧
      result.get? labelRule.target.toList = some (.string "pen") := by
  have hrule : labelRule.MovesPlace := ⟨by decide, by decide, by decide, by decide⟩
  have hget : (Json.object penCart).get? labelRule.source.toList = some (.string "pen") := by
    with_unfolding_all rfl
  have happly : TransformStep.apply { rename := some [labelRule] } (.object penCart)
      = .ok (.object [("items", .array [.object [],
          .object [("label", .string "pen"), ("name", .string "ink")]])]) := by
    with_unfolding_all rfl
  have hapart :
      ¬ (Json.object penCart).Overlap labelRule.source.toList labelRule.target.toList := by
    unfold Json.Overlap
    decide +kernel
  exact ⟨_, happly, (get?_target_of_apply hrule hget happly).1 (Or.inr hapart)⟩

/-- A user. -/
def adaUser : Dict Json :=
  [("user", .object [("name", .string "Ada")])]

/-- The user becomes the profile of the user. -/
def profileRule : RenameRule :=
  ⟨"user", "user.profile"⟩

/-- A rule may lose the value that it moves: a member that is moved into itself is deleted with
what was just written there. -/
theorem not_get?_target_of_apply :
    ¬ ∀ (rule : RenameRule) (members : Dict Json) (value result : Json), rule.MovesPlace →
      (Json.object members).get? rule.source.toList = some value →
      TransformStep.apply { rename := some [rule] } (.object members) = .ok result →
      result.get? rule.target.toList = some value := by
  intro hkept
  have hrule : profileRule.MovesPlace := ⟨by decide, by decide, by decide, by decide⟩
  have hget : (Json.object adaUser).get? profileRule.source.toList
      = some (.object [("name", .string "Ada")]) := by
    with_unfolding_all rfl
  have happly : TransformStep.apply { rename := some [profileRule] } (.object adaUser)
      = .ok (.object []) := by
    with_unfolding_all rfl
  have hfound := hkept profileRule adaUser _ _ hrule hget happly
  have hnothing : (Json.object []).get? profileRule.target.toList = none := by
    with_unfolding_all rfl
  rw [hnothing] at hfound
  cases hfound

end TransformStep
end DeclaredApi
