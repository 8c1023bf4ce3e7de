import DeclaredApi.Proofs.Path.Commute
import DeclaredApi.Proofs.Transform.InTurn
import DeclaredApi.Proofs.Transform.MemberRule

/-!
# `DeclaredApi.Proofs.Transform.Through`: two rules instead of one

A value that is moved to a place, and from there to another one, is where one rule would have moved
it. The rest of the data need not be as that rule would have left it. What the first rule makes on
its way to the place between, parents or a slot of an array, the second one leaves behind, for a
deletion takes away no more than the value.

A rule between plain paths moves along keys (`Moved`), whether it is one for members or for places.
Since the three places are apart, the deletion of the source and the two writes may be done in any
order. So two rules do what one does, and then write at the place between and delete there again,
and this changes nothing exactly if an object was there to take the value up
(`Moved.eq_of_through_iff`).

A rule without dots takes its paths for names of members. So a path may be read in one way by one of
the rules and in another way by another one, and `RenameRule.Reads` is there to say that it is not.
-/

set_option autoImplicit false

namespace DeclaredApi

/-! ### Rules as moves along keys -/

/-- The keys that a rule reads one of its paths as: those of the path if the rule has a dot, and
otherwise the one key that is its text. -/
def RenameRule.keysOf (rule : RenameRule) (path : String) : List String :=
  if '.' ∈ rule.source.toList ∨ '.' ∈ rule.target.toList then Path.keys path.toList else [path]

/-- The rule is one between plain paths, which it reads as these keys. -/
structure RenameRule.Reads (rule : RenameRule) (source target : List String) : Prop where
  source_plain : Path.Plain rule.source.toList
  target_plain : Path.Plain rule.target.toList
  source_keys : rule.keysOf rule.source = source
  target_keys : rule.keysOf rule.target = target

namespace Json

variable {data between chained direct result value : Json} {source middle target : List String}

/-- What is at the first keys has been written at the second ones and deleted where it was, if it
is there. -/
def Moved (source target : List String) (data result : Json) : Prop :=
  (data.getAt? (source.map .key) = none ∧ result = data) ∨
  ∃ value written, data.getAt? (source.map .key) = some value ∧
    assignAt value (target.map .key) data = (written, none) ∧ result = written.without source

/-- Without a value at the source nothing moves. -/
theorem Moved.eq_self (h : Moved source target data result)
    (hnone : data.getAt? (source.map .key) = none) : result = data := by
  rcases h with ⟨-, heq⟩ | ⟨value, written, hsome, -, -⟩
  · exact heq
  · rw [hnone] at hsome
    cases hsome

/-- A value at the source has been written at the target and deleted where it was. -/
theorem Moved.exists_written (h : Moved source target data result)
    (hsome : data.getAt? (source.map .key) = some value) :
    ∃ written, assignAt value (target.map .key) data = (written, none) ∧
      result = written.without source := by
  rcases h with ⟨hnone, -⟩ | ⟨found, written, hfound, hassign, heq⟩
  · rw [hnone] at hsome
    cases hsome
  · rw [hsome] at hfound
    cases hfound
    exact ⟨written, hassign, heq⟩

/-- A sorted value stays sorted when something moves in it. -/
theorem Moved.ordered (h : Moved source target data result) (hdata : data.Ordered) :
    result.Ordered := by
  rcases h with ⟨-, rfl⟩ | ⟨value, written, hget, hassign, rfl⟩
  · exact hdata
  · exact (hdata.assignAt (hdata.getAt? hget) hassign).without source

/-- An object stays one when something moves to a place below it. -/
theorem Moved.exists_members {members : Dict Json}
    (h : Moved source target (.object members) result) (htarget : target ≠ []) :
    ∃ left, result = .object left := by
  rcases h with ⟨-, rfl⟩ | ⟨value, written, -, hassign, rfl⟩
  · exact ⟨members, rfl⟩
  · obtain ⟨key, rest, rfl⟩ := List.exists_cons_of_ne_nil htarget
    obtain ⟨-, made, -, rfl⟩ := assignAt_cons_iff.1 hassign
    rw [without, putChild_object]
    cases hdelete : (Json.object (Dict.insert key made members)).deleteAt? (source.map .key) with
    | none => exact ⟨_, rfl⟩
    | some left => exact exists_members_of_deleteAt? hdelete

/-- Two moves, the second one from where the first one leads, do what one move does exactly if
there is nothing to be moved, or if that one leaves an object above the place between. -/
theorem Moved.eq_of_through_iff (hbetween : Moved source middle data between)
    (hdata : data.Ordered) (hfirst : data.Apart source middle) (hboth : data.Apart source target)
    (hsecond : data.Apart middle target) (habsent : data.getAt? (middle.map .key) = none)
    (hchained : Moved middle target between chained)
    (hdirect : Moved source target data direct) :
    chained = direct ↔ data.getAt? (source.map .key) = none ∨
      ∃ above last members, middle = above ++ [last] ∧
        direct.getAt? (above.map .key) = some (.object members) := by
  cases hget : data.getAt? (source.map .key) with
  | none =>
      have hsame := hbetween.eq_self hget
      subst hsame
      rw [hchained.eq_self habsent, hdirect.eq_self hget]
      exact iff_of_true rfl (Or.inl rfl)
  | some value =>
      obtain ⟨put, hput, rfl⟩ := hbetween.exists_written hget
      obtain ⟨set, hset, rfl⟩ := hdirect.exists_written hget
      have hvalue := hdata.getAt? hget
      have hcleared := hdata.without source
      -- Both ways begin with the deletion of the source.
      have hput := assignAt_without hdata hvalue hfirst hget hput
      have hset := assignAt_without hdata hvalue hboth hget hset
      have hapart : (data.without source).Apart middle target := by
        rwa [Apart, place_without hdata hfirst.1, place_without hdata hboth.1]
      obtain ⟨moved, hmoved, rfl⟩ := hchained.exists_written (getAt?_assignAt hput)
      obtain ⟨both, hlast, hback⟩ := assignAt_comm hcleared hvalue hvalue hapart hput hset
      cases hmoved.symm.trans hlast
      -- What is left to do at the place between is a write that is taken back.
      have hnothing : (set.without source).getAt? (middle.map .key) = none :=
        (getAt?_assignAt_of_apart hapart.symm hset).trans
          ((getAt?_without_of_outside hdata hfirst).trans habsent)
      have hordered := hcleared.assignAt hvalue hset
      obtain ⟨above, last, rfl⟩ :=
        (List.eq_nil_or_concat' middle).resolve_left hsecond.ne_nil
      rw [without_assignAt_eq_self_iff hordered hvalue hnothing hback]
      constructor
      · rintro ⟨members, hmembers⟩
        exact Or.inr ⟨above, last, members, rfl, hmembers⟩
      · rintro (hnone | ⟨above', last', members, heq, hmembers⟩)
        · cases hnone
        · obtain ⟨rfl, -⟩ := List.append_inj' heq rfl
          exact ⟨members, hmembers⟩

end Json

/-! ### Rules for one object -/

namespace TransformStep

open Json (Moved)

variable {rule : RenameRule} {source target : List String} {members : Dict Json} {result : Json}

/-- A rule between plain paths moves along the keys that it reads them as. -/
theorem moved_of_apply (h : rule.Reads source target) (hne : source ≠ target)
    (hordered : (Json.object members).Ordered)
    (happly : TransformStep.apply { rename := some [rule] } (.object members) = .ok result) :
    Moved source target (.object members) result := by
  have hdiffers : rule.source ≠ rule.target := fun heq =>
    hne (by rw [← h.source_keys, ← h.target_keys, heq])
  by_cases hdotted : '.' ∈ rule.source.toList ∨ '.' ∈ rule.target.toList
  · have hplace : rule.MovesPlace := ⟨h.source_plain, h.target_plain, hdotted, hdiffers⟩
    have hsource : Path.keys rule.source.toList = source := by
      rw [← h.source_keys, RenameRule.keysOf, if_pos hdotted]
    have htarget : Path.keys rule.target.toList = target := by
      rw [← h.target_keys, RenameRule.keysOf, if_pos hdotted]
    have hread := Json.get?_of_plain h.source_plain (.object members)
    rw [hsource] at hread
    cases hget : (Json.object members).getAt? (source.map .key) with
    | none =>
        rw [apply_singleton, hplace.move_eq, Move.apply, Json.movePlace, hread, hget] at happly
        exact Or.inl ⟨hget, (Except.ok.inj happly).symm⟩
    | some value =>
        obtain ⟨written, hassign, heq⟩ := hplace.exists_written (hread.trans hget) happly
        rw [htarget] at hassign
        rw [hsource] at heq
        exact Or.inr ⟨value, written, hget, hassign, heq⟩
  · obtain ⟨hdotless, hdotless'⟩ := not_or.1 hdotted
    have hmember : rule.MovesMember :=
      ⟨h.source_plain, h.target_plain, hdotless, hdotless', hdiffers⟩
    have hsource : [rule.source] = source := by
      rw [← h.source_keys, RenameRule.keysOf, if_neg hdotted]
    have htarget : [rule.target] = target := by
      rw [← h.target_keys, RenameRule.keysOf, if_neg hdotted]
    rw [apply_member hmember hordered, hsource, htarget, Json.moveAlong] at happly
    obtain rfl := Except.ok.inj happly
    cases hget : (Json.object members).getAt? (source.map .key) with
    | none => exact Or.inl ⟨hget, rfl⟩
    | some value =>
        -- There is always room for another member.
        have hassign : Json.assignAt value (target.map .key) (.object members)
            = (.object (Dict.insert rule.target value members), none) := by
          rw [← htarget]
          exact Json.assignAt_cons_iff.2 ⟨trivial, value, rfl, rfl⟩
        have hleft := congrArg (fun written => written.1.without source) hassign
        exact Or.inr ⟨value, _, hget, hassign, hleft⟩

/-- A step with two rules does what the first one does to an object and then what the second one
does. -/
theorem exists_between_of_apply {first second : RenameRule} {middle : List String}
    (hfirst : first.Reads source middle) (hne : source ≠ middle) (hmiddle : middle ≠ [])
    (hordered : (Json.object members).Ordered)
    (happly : TransformStep.apply { rename := some [first, second] } (.object members)
      = .ok result) :
    ∃ between, Moved source middle (.object members) (.object between) ∧
      TransformStep.apply { rename := some [second] } (.object between) = .ok result := by
  rw [apply_rename (List.cons_ne_nil _ _), pathPairs, List.map_cons, List.map_singleton,
    Json.renamed_object, List.foldlM_cons] at happly
  obtain ⟨between, hbetween, hlast⟩ := exists_of_bind_ok happly
  rw [← apply_singleton] at hbetween
  have hmoved := moved_of_apply hfirst hne hordered hbetween
  obtain ⟨between, rfl⟩ := hmoved.exists_members hmiddle
  refine ⟨between, hmoved, ?_⟩
  rw [apply_singleton]
  simpa using hlast

/-- A step that moves a value through a place between, where nothing was before, has the result of
the step that moves it there at once, exactly if there is no value to be moved, or if that step
leaves an object above the place between. Each of the paths is read alike by the two rules that it
stands in, and no two of the places are one, or one above the other. -/
theorem apply_through_eq_iff {first second third : String} {source middle target : List String}
    {members : Dict Json} {chained direct : Json} (hordered : (Json.object members).Ordered)
    (hfirst : RenameRule.Reads ⟨first, second⟩ source middle)
    (hsecond : RenameRule.Reads ⟨second, third⟩ middle target)
    (hboth : RenameRule.Reads ⟨first, third⟩ source target)
    (hsourceMiddle : (Json.object members).Apart source middle)
    (hsourceTarget : (Json.object members).Apart source target)
    (hmiddleTarget : (Json.object members).Apart middle target)
    (habsent : (Json.object members).getAt? (middle.map .key) = none)
    (hchained : TransformStep.apply { rename := some [⟨first, second⟩, ⟨second, third⟩] }
      (.object members) = .ok chained)
    (hdirect : TransformStep.apply { rename := some [⟨first, third⟩] } (.object members)
      = .ok direct) :
    chained = direct ↔ (Json.object members).getAt? (source.map .key) = none ∨
      ∃ above last parent, middle = above ++ [last] ∧
        direct.getAt? (above.map .key) = some (.object parent) := by
  obtain ⟨between, hbetween, hlast⟩ := exists_between_of_apply hfirst hsourceMiddle.ne
    hmiddleTarget.ne_nil hordered hchained
  exact hbetween.eq_of_through_iff hordered hsourceMiddle hsourceTarget hmiddleTarget habsent
    (moved_of_apply hsecond hmiddleTarget.ne (hbetween.ordered hordered) hlast)
    (moved_of_apply hboth hsourceTarget.ne hordered hdirect)

/-- A user with a team. -/
def teamMember : Dict Json :=
  [("name", .string "Ada"), ("team", .object [("size", .string "one")])]

/-- The name becomes a member of the team, which takes it up and gives it back. -/
theorem apply_through_team :
    ∃ chained direct,
      TransformStep.apply { rename := some [⟨"name", "team.head"⟩, ⟨"team.head", "title"⟩] }
        (.object teamMember) = .ok chained ∧
      TransformStep.apply { rename := some [⟨"name", "title"⟩] } (.object teamMember)
        = .ok direct ∧
      chained = direct := by
  have hordered : (Json.object teamMember).Ordered := by
    simp only [teamMember, Json.Ordered, Json.OrderedMembers, Dict.Sorted]
    decide
  have hfirst : RenameRule.Reads ⟨"name", "team.head"⟩ ["name"] ["team", "head"] :=
    ⟨by decide, by decide, by with_unfolding_all rfl, by with_unfolding_all rfl⟩
  have hsecond : RenameRule.Reads ⟨"team.head", "title"⟩ ["team", "head"] ["title"] :=
    ⟨by decide, by decide, by with_unfolding_all rfl, by with_unfolding_all rfl⟩
  have hboth : RenameRule.Reads ⟨"name", "title"⟩ ["name"] ["title"] :=
    ⟨by decide, by decide, by with_unfolding_all rfl, by with_unfolding_all rfl⟩
  have hapart : (Json.object teamMember).Apart ["name"] ["team", "head"] ∧
      (Json.object teamMember).Apart ["name"] ["title"] ∧
      (Json.object teamMember).Apart ["team", "head"] ["title"] := by
    unfold Json.Apart
    decide +kernel
  have habsent : (Json.object teamMember).getAt? (["team", "head"].map .key) = none := by
    with_unfolding_all rfl
  have hchained : TransformStep.apply
        { rename := some [⟨"name", "team.head"⟩, ⟨"team.head", "title"⟩] } (.object teamMember)
      = .ok (.object [("team", .object [("size", .string "one")]), ("title", .string "Ada")]) := by
    with_unfolding_all rfl
  have hdirect : TransformStep.apply { rename := some [⟨"name", "title"⟩] } (.object teamMember)
      = .ok (.object [("team", .object [("size", .string "one")]), ("title", .string "Ada")]) := by
    with_unfolding_all rfl
  refine ⟨_, _, hchained, hdirect, ?_⟩
  exact (apply_through_eq_iff hordered hfirst hsecond hboth hapart.1 hapart.2.1 hapart.2.2 habsent
    hchained hdirect).2 (Or.inr ⟨["team"], "head", _, rfl, rfl⟩)

/-- Two rules may not do what one does, though the paths diverge and nothing is at the one between.
The parents that the first rule makes are left. And also if there is a parent before, a rule without
a dot may write a member that has the text of a path for its name, where a rule with a dot does not
look for it. -/
theorem not_apply_through_eq :
    (¬ ∀ (first second third : String) (members : Dict Json) (chained direct : Json),
      Path.Plain first.toList → Path.Plain second.toList → Path.Plain third.toList →
      Path.Diverge first.toList second.toList → Path.Diverge first.toList third.toList →
      Path.Diverge second.toList third.toList → (Json.object members).Ordered →
      (Json.object members).get? second.toList = none →
      TransformStep.apply { rename := some [⟨first, second⟩, ⟨second, third⟩] } (.object members)
        = .ok chained →
      TransformStep.apply { rename := some [⟨first, third⟩] } (.object members) = .ok direct →
      chained = direct) ∧
    ¬ ∀ (first second third : String) (members : Dict Json) (chained direct : Json),
      Path.Plain first.toList → Path.Plain second.toList → Path.Plain third.toList →
      Path.Diverge first.toList second.toList → Path.Diverge first.toList third.toList →
      Path.Diverge second.toList third.toList → (Json.object members).Ordered →
      (Json.object members).get? second.toList = none → Dict.find? second members = none →
      (∃ above last parent, Path.keys second.toList = above ++ [last] ∧
        direct.getAt? (above.map .key) = some (.object parent)) →
      TransformStep.apply { rename := some [⟨first, second⟩, ⟨second, third⟩] } (.object members)
        = .ok chained →
      TransformStep.apply { rename := some [⟨first, third⟩] } (.object members) = .ok direct →
      chained = direct := by
  constructor
  · intro hsame
    have hordered : (Json.object [("name", .string "Ada")]).Ordered := by
      simp only [Json.Ordered, Json.OrderedMembers, Dict.Sorted]
      decide
    have hchained : TransformStep.apply
          { rename := some [⟨"name", "user.name"⟩, ⟨"user.name", "title"⟩] }
          (.object [("name", .string "Ada")])
        = .ok (.object [("title", .string "Ada"), ("user", .object [])]) := by
      with_unfolding_all rfl
    have hdirect : TransformStep.apply { rename := some [⟨"name", "title"⟩] }
          (.object [("name", .string "Ada")]) = .ok (.object [("title", .string "Ada")]) := by
      with_unfolding_all rfl
    have hname : Path.keys "name".toList = ["name"] := by with_unfolding_all rfl
    have heq := hsame "name" "user.name" "title" _ _ _ (by decide) (by decide) (by decide)
      ⟨[], "name", "user", [], ["name"], hname, by with_unfolding_all rfl, by decide, by decide⟩
      ⟨[], "name", "title", [], [], hname, by with_unfolding_all rfl, by decide, by decide⟩
      ⟨[], "user", "title", ["name"], [], by with_unfolding_all rfl, by with_unfolding_all rfl,
        by decide, by decide⟩
      hordered (by with_unfolding_all rfl) hchained hdirect
    simp at heq
  · intro hsame
    have hordered : (Json.object [("name", .string "Ada"), ("tags", .object []),
        ("user", .object [])]).Ordered := by
      simp only [Json.Ordered, Json.OrderedMembers, Dict.Sorted]
      decide
    have hchained : TransformStep.apply
          { rename := some [⟨"name", "tags[0]"⟩, ⟨"tags[0]", "user.title"⟩] }
          (.object [("name", .string "Ada"), ("tags", .object []), ("user", .object [])])
        = .ok (.object [("tags", .object []), ("tags[0]", .string "Ada"),
            ("user", .object [])]) := by
      with_unfolding_all rfl
    have hdirect : TransformStep.apply { rename := some [⟨"name", "user.title"⟩] }
          (.object [("name", .string "Ada"), ("tags", .object []), ("user", .object [])])
        = .ok (.object [("tags", .object []), ("user", .object [("title", .string "Ada")])]) := by
      with_unfolding_all rfl
    have hname : Path.keys "name".toList = ["name"] := by with_unfolding_all rfl
    have htags : Path.keys "tags[0]".toList = ["tags", "0"] := by with_unfolding_all rfl
    have htitle : Path.keys "user.title".toList = ["user", "title"] := by with_unfolding_all rfl
    have heq := hsame "name" "tags[0]" "user.title" _ _ _ (by decide) (by decide) (by decide)
      ⟨[], "name", "tags", [], ["0"], hname, htags, by decide, by decide⟩
      ⟨[], "name", "user", [], ["title"], hname, htitle, by decide, by decide⟩
      ⟨[], "tags", "user", ["0"], ["title"], htags, htitle, by decide, by decide⟩
      hordered (by with_unfolding_all rfl) (by decide)
      ⟨["tags"], "0", [], htags, by with_unfolding_all rfl⟩ hchained hdirect
    simp at heq

end TransformStep
end DeclaredApi
