import DeclaredApi.Proofs.Path.Markers

/-!
# `DeclaredApi.Proofs.Path.Levels`: what stands between the markers of a path

The markers of a path cut it into levels (`Levels`), in one way only. To read a path at its levels
is to go down the steps of the first one to an array, and on from every element of it with the
others (`Json.project?`). The text of a path alone tells whether `get?` does that in every value,
and whether `splitWildcard?` gives what is before the first marker: a bracket behind a marker hides
that marker from both. `splitsAtFirst_projects_iff` says so of the paths whose markers are followed
by a dot, a bracket or nothing, which leaves out texts such as `a[*]b`.

A hidden marker becomes a part of a key, so the path leads nowhere in a value whose names have no
markers (`Json.Unmarked.get?_skipped`). The levels do lead somewhere in some such value: the one
that has their names and nothing else (`Json.underNames`).
-/

set_option autoImplicit false

namespace DeclaredApi

namespace Path

variable {path : List Char} {levels : List (List Char)}

/-! ### Levels -/

/-- A path has levels.

- `last`: a path without a marker is one level;
- `marked`: what is before the first marker is a level, and what is behind it has the others. -/
inductive Levels : List Char → List (List Char) → Prop where
  | last {path : List Char} (h : Plain path) : Levels path [path]
  | marked {head after : List Char} {levels : List (List Char)} (hhead : Plain head)
    (hafter : Levels after levels) : Levels (head ++ wildcard ++ after) (head :: levels)

/-- A path has levels, by induction on what is behind its first marker. -/
theorem exists_levels (path : List Char) : ∃ levels, Levels path levels := by
  by_cases h : Plain path
  · exact ⟨_, .last h⟩
  · obtain ⟨before, behind, hpath⟩ := not_not.1 h
    obtain ⟨head, after, hhead, heq⟩ := exists_first_marker before behind
    have hlt : after.length < path.length := by
      rw [← hpath, heq]
      simp only [wildcard, List.length_append, List.length_cons]
      omega
    obtain ⟨levels, hlevels⟩ := exists_levels after
    rw [← hpath, heq]
    exact ⟨_, .marked hhead hlevels⟩
termination_by path.length

/-- A path has one level at least. -/
theorem Levels.ne_nil (h : Levels path levels) : levels ≠ [] := by
  cases h <;> exact List.cons_ne_nil _ _

/-- A path has its levels in one way. -/
theorem Levels.unique (h : Levels path levels) {others : List (List Char)}
    (hothers : Levels path others) : others = levels := by
  induction h generalizing others with
  | last hplain =>
      cases hothers with
      | last _ => rfl
      | marked _ _ => exact absurd hplain (not_plain_marked _ _)
  | @marked head after levels hhead _ ih =>
      generalize hpath : head ++ wildcard ++ after = path at hothers
      cases hothers with
      | last hplain => exact absurd (hpath ▸ hplain) (not_plain_marked _ _)
      | @marked head' after' others hhead' hafter' =>
          rcases hhead.eq_or_behind hpath with ⟨rfl, rfl⟩ | ⟨between, rfl, -⟩
          · rw [ih hafter']
          · exact absurd hhead' (not_plain_marked _ _)

end Path

namespace Json

open DeclaredApi.Path (Step Levels Plain MarkersFollowedBy Delimited Spaced wildcard)

variable {path head : List Char} {levels : List (List Char)}

/-! ### Reading at levels -/

/-- The value at the end of the levels: behind each level but the last there is an array, and what
is read there has one value for each of its elements, null where the other levels lead nowhere. -/
def project? : List (List Char) → Json → Option Json
  | [], _ => none
  | [level], root => root.getAt? (Path.steps level)
  | level :: next :: others, root =>
    match root.getAt? (Path.steps level) with
    | some (.array items) =>
      some (.array (items.map fun item => (project? (next :: others) item).getD .null))
    | _ => none

/-- A level that is not the last leads to an array, and each element is read at the others. -/
theorem project?_cons (h : levels ≠ []) (level : List Char) (root : Json) :
    root.project? (level :: levels) =
      match root.getAt? (Path.steps level) with
      | some (.array items) =>
        some (.array (items.map fun item => (item.project? levels).getD .null))
      | _ => none := by
  cases levels with
  | nil => exact absurd rfl h
  | cons next others => rw [project?]

/-- A path is read at its levels if each of its markers is followed by a dot or ends it. -/
theorem get?_eq_project? (h : Levels path levels)
    (hfollowed : MarkersFollowedBy (· ∈ [none, some '.']) path) (root : Json) :
    root.get? path = root.project? levels := by
  induction h generalizing root with
  | last hplain => exact get?_eq_getAt? hplain root
  | @marked head after levels hhead hafter ih =>
      obtain ⟨hnext, hrest⟩ := (Path.markersFollowedBy_marked hhead).1 hfollowed
      rw [get?, hhead.route_marked hnext, follow?, project?_cons hafter.ne_nil]
      rcases root.getAt? (Path.steps head) with _ | found
      · rfl
      · cases found with
        | array items =>
            have hitems : ∀ item ∈ items,
                (item.get? after).getD .null = (item.project? levels).getD .null := fun item _ => by
              rw [ih hrest item]
            exact congrArg (fun items => some (Json.array items)) (List.map_congr_left hitems)
        | _ => rfl

/-! ### Where a path is not read at its levels -/

/-- No member anywhere in the value has a marker in its name. -/
def Unmarked (root : Json) : Prop :=
  ∀ steps members, root.getAt? steps = some (.object members) →
    ∀ member ∈ members, Plain member.1.toList

/-- Below a value without markers there are none. -/
theorem Unmarked.child? {root child : Json} {step : Step} (h : root.Unmarked)
    (hchild : root.child? step = some child) : child.Unmarked := by
  intro steps members hget
  refine h (step :: steps) members ?_
  rw [getAt?, hchild]
  exact hget

/-- A key with a marker is neither a name in such a value nor a position. -/
theorem Unmarked.child?_eq_none {root : Json} {step : Step} (h : root.Unmarked)
    (hmarked : ¬ Plain step.asKey.toList) : root.child? step = none := by
  cases root with
  | object members =>
      by_contra hsome
      obtain ⟨child, hfind⟩ := Option.ne_none_iff_exists'.1 hsome
      exact hmarked (h [] members rfl _ (Dict.mem_of_find? hfind))
  | array items =>
      rw [Json.child?, Path.asPosition?_of_not_plain hmarked]
      rfl
  | _ => rfl

/-- A step whose key has a marker leads nowhere in such a value. -/
theorem Unmarked.getAt?_eq_none {root : Json} (h : root.Unmarked) {steps : List Step}
    (hmarked : ∃ step ∈ steps, ¬ Plain step.asKey.toList) : root.getAt? steps = none := by
  induction steps generalizing root with
  | nil => simp at hmarked
  | cons step rest ih =>
      obtain ⟨marked, hmem, hplain⟩ := hmarked
      rw [getAt?]
      rcases List.mem_cons.1 hmem with rfl | hlater
      · rw [h.child?_eq_none hplain]
        rfl
      · cases hchild : root.child? step with
        | none => rfl
        | some child => exact ih (h.child? hchild) ⟨marked, hlater, hplain⟩

/-- With a bracket behind its first marker, a path leads nowhere in a value without markers in
names. -/
theorem Unmarked.get?_skipped {root : Json} (h : root.Unmarked) (hhead : Plain head)
    (rest : List Char) : root.get? (head ++ wildcard ++ '[' :: rest) = none := by
  have hnone : ∀ path, ¬ Plain path → root.getAt? (Path.steps path) = none := fun path hpath =>
    h.getAt?_eq_none (Path.exists_marked_step hpath)
  rw [get?, Path.route_eq, hhead.splitWildcard?_skipped]
  -- What is split off, or the whole path if nothing is, has the first marker in it.
  rcases Path.splitWildcard? ('[' :: rest) with _ | ⟨inner, tail⟩
  · exact hnone _ (Path.not_plain_marked _ _)
  · have hinner := hnone _ (Path.not_plain_marked head inner)
    cases tail <;> simp only [Option.map_some, follow?, hinner]

/-- The value under the names, with nothing beside it. -/
def underNames : List String → Json → Json
  | [], value => value
  | name :: names, value => .object [(name, underNames names value)]

/-- The first name is the only one at the top. -/
theorem child?_underNames (name : String) (names : List String) (value : Json) (step : Step) :
    (underNames (name :: names) value).child? step
      = if name = step.asKey then some (underNames names value) else none :=
  rfl

/-- The steps with these names lead to the value under them. -/
theorem getAt?_underNames (steps : List Step) (value : Json) :
    (underNames (steps.map Step.asKey) value).getAt? steps = some value := by
  induction steps with
  | nil => rfl
  | cons step rest ih =>
      rw [List.map_cons, getAt?, child?_underNames, if_pos rfl]
      exact ih

/-- Names without markers put none above a value. -/
theorem unmarked_underNames {names : List String} (hnames : ∀ name ∈ names, Plain name.toList)
    {value : Json} (hvalue : value.Unmarked) : (underNames names value).Unmarked := by
  induction names with
  | nil => exact hvalue
  | cons name names ih =>
      obtain ⟨hname, hnames⟩ := List.forall_mem_cons.1 hnames
      intro steps members hget member hmem
      cases steps with
      | nil =>
          cases hget
          obtain rfl := List.mem_singleton.1 hmem
          exact hname
      | cons step rest =>
          rw [getAt?, child?_underNames] at hget
          split_ifs at hget
          · exact ih hnames rest members hget member hmem
          · cases hget

/-- An empty array has no member that could have one. -/
theorem unmarked_emptyArray : (Json.array []).Unmarked := by
  intro steps members hget
  cases steps with
  | nil => cases hget
  | cons step rest =>
      rw [getAt?, Json.child?] at hget
      cases hposition : step.asPosition? <;> rw [hposition] at hget <;> cases hget

/-- Where a bracket follows a marker, there is a value in which the path and its levels do not lead
to the same. -/
theorem exists_get?_ne_project? (h : Levels path levels) (hdelimited : Delimited path)
    (hbracket : ¬ Spaced path) :
    ∃ root : Json, (root.get? path).getD .null ≠ (root.project? levels).getD .null := by
  induction h with
  | last hplain => exact absurd hplain.markersFollowedBy hbracket
  | @marked head after levels hhead hafter ih =>
      obtain ⟨-, hrest⟩ := (Path.markersFollowedBy_marked hhead).1 hdelimited
      by_cases hopen : after.head? = some '['
      · -- An empty array under the names of the first level tells the two apart.
        obtain ⟨rest, rfl⟩ := List.head?_eq_some_iff.1 hopen
        have hunmarked : (underNames (Path.keys head) (.array [])).Unmarked :=
          unmarked_underNames (List.forall_mem_map.2 hhead.of_mem_steps) unmarked_emptyArray
        refine ⟨underNames (Path.keys head) (.array []), ?_⟩
        rw [hunmarked.get?_skipped hhead, project?_cons hafter.ne_nil, Path.keys,
          getAt?_underNames]
        simp
      · -- An array of what tells the later levels apart does, under the names of the first one.
        have hdot := hdelimited.dot_or_end rfl hopen
        have hlater : ¬ Spaced after := fun hspaced =>
          hbracket ((Path.markersFollowedBy_marked hhead).2 ⟨hopen, hspaced⟩)
        obtain ⟨item, hitem⟩ := ih hrest hlater
        refine ⟨underNames (Path.keys head) (.array [item]), ?_⟩
        rw [get?, hhead.route_marked hdot, follow?, project?_cons hafter.ne_nil, Path.keys,
          getAt?_underNames]
        simpa [get?] using hitem

end Json

namespace Path

variable {path : List Char}

/-! ### Paths that are split and read at their markers -/

/-- To split the path is to split it at its first marker: there is something to split exactly if
there is a marker, and what is split off is the text before the first one. -/
structure SplitsAtFirst (path : List Char) : Prop where
  isSome_iff : (splitWildcard? path).isSome ↔ wildcard <:+: path
  before_first : ∀ head tail, splitWildcard? path = some (head, tail) →
    Plain head ∧ ∃ after, path = head ++ wildcard ++ after

/-- To read the path is to read it at its levels, in every value. -/
def Projects (path : List Char) : Prop :=
  ∃ levels, Levels path levels ∧ (∀ others, Levels path others → others = levels) ∧
    ∀ root : Json, root.get? path = root.project? levels

/-- A path is split if it has a marker that no bracket follows. -/
theorem isSome_splitWildcard?_iff (h : Delimited path) :
    (splitWildcard? path).isSome ↔
      ∃ head after, path = head ++ wildcard ++ after ∧ after.head? ≠ some '[' := by
  rw [splitWildcard?]
  constructor
  · intro hsome
    cases hcut : Text.cut? wildcardDot path with
    | some pieces =>
        refine ⟨pieces.1, '.' :: pieces.2, ?_, by simp⟩
        rw [Text.cut?_eq_some_imp hcut]
        simp [wildcard, wildcardDot]
    | none =>
        simp only [hcut, Option.isSome_map] at hsome
        obtain ⟨head, hends⟩ := Option.isSome_iff_exists.1 hsome
        exact ⟨head, [], by simpa using Text.dropEnding?_eq_some_iff.1 hends, by simp⟩
  · rintro ⟨head, after, rfl, hopen⟩
    -- In a delimited path the marker is followed by a dot or by nothing: one case for each of the
    -- two searches.
    have hnext := h.dot_or_end rfl hopen
    cases after with
    | nil =>
        have hends : Text.dropEnding? wildcard (head ++ wildcard ++ []) = some head :=
          Text.dropEnding?_eq_some_iff.2 (List.append_nil _)
        rw [hends]
        cases Text.cut? wildcardDot (head ++ wildcard ++ []) <;> rfl
    | cons c rest =>
        obtain rfl : c = '.' := by simpa using hnext
        have hdot : wildcardDot <:+: head ++ wildcard ++ '.' :: rest :=
          ⟨head, rest, by simp [wildcard, wildcardDot]⟩
        cases hcut : Text.cut? wildcardDot (head ++ wildcard ++ '.' :: rest) with
        | some pieces => rfl
        | none => exact absurd hdot (Text.cut?_eq_none_iff.1 hcut)

/-- A path is split at its first marker if there is one and no bracket follows it. -/
theorem splitsAtFirst_iff (h : Delimited path) :
    SplitsAtFirst path ↔
      ∀ head after, Plain head → path = head ++ wildcard ++ after → after.head? ≠ some '[' := by
  constructor
  · rintro hsplits head after hhead rfl hopen
    -- The search passes over a marker before a bracket, so what it splits off as head holds that
    -- marker and is not plain.
    obtain ⟨rest, rfl⟩ := List.head?_eq_some_iff.1 hopen
    obtain ⟨pieces, hpieces⟩ := Option.isSome_iff_exists.1
      (hsplits.isSome_iff.2 (List.infix_append head wildcard _))
    have hfirst := hsplits.before_first _ _ hpieces
    rw [hhead.splitWildcard?_skipped] at hpieces
    obtain ⟨inner, -, rfl⟩ := Option.map_eq_some_iff.1 hpieces
    exact not_plain_marked _ _ hfirst.1
  · intro hfirst
    by_cases hplain : Plain path
    · refine ⟨?_, fun head tail hsome => ?_⟩
      · rw [hplain.splitWildcard?]
        exact ⟨fun hsome => absurd hsome (by decide), fun hmarker => absurd hmarker hplain⟩
      · rw [hplain.splitWildcard?] at hsome
        cases hsome
    · obtain ⟨before, behind, rfl⟩ := not_not.1 hplain
      obtain ⟨head, after, hhead, heq⟩ := exists_first_marker before behind
      rw [heq] at h hfirst ⊢
      obtain ⟨tail, hsplit⟩ :=
        hhead.exists_splitWildcard? (h.dot_or_end rfl (hfirst head after hhead rfl))
      refine ⟨?_, fun head' tail' hsome => ?_⟩
      · rw [hsplit]
        simp
      · rw [hsplit] at hsome
        cases hsome
        exact ⟨hhead, after, rfl⟩

/-- A path is read at its levels if no bracket follows one of its markers. -/
theorem projects_iff (h : Delimited path) : Projects path ↔ Spaced path := by
  constructor
  · rintro ⟨levels, hlevels, -, hread⟩
    by_contra hbracket
    obtain ⟨root, hroot⟩ := Json.exists_get?_ne_project? hlevels h hbracket
    exact hroot (by rw [hread])
  · intro hspaced
    have hfollowed : MarkersFollowedBy (· ∈ [none, some '.']) path := fun head after hpath =>
      h.dot_or_end hpath (hspaced head after hpath)
    obtain ⟨levels, hlevels⟩ := exists_levels path
    exact ⟨levels, hlevels, fun _ => hlevels.unique, Json.get?_eq_project? hlevels hfollowed⟩

/-- What becomes of a path whose markers are followed by a dot, a bracket or nothing. It is split
exactly if it has a marker that no bracket follows. It is split at its first marker, if it has one,
exactly if no bracket follows that one. It is read at its levels, in every value, exactly if no
bracket follows any of its markers. And with a bracket behind its first marker it leads nowhere,
unless a name has a marker in it. -/
theorem splitsAtFirst_projects_iff (h : Delimited path) :
    ((splitWildcard? path).isSome ↔
      ∃ head after, path = head ++ wildcard ++ after ∧ after.head? ≠ some '[') ∧
    (SplitsAtFirst path ↔
      ∀ head after, Plain head → path = head ++ wildcard ++ after → after.head? ≠ some '[') ∧
    (Projects path ↔ Spaced path) ∧
    (∀ head rest, Plain head → path = head ++ wildcard ++ '[' :: rest →
      ∀ root : Json, root.Unmarked → root.get? path = none) := by
  refine ⟨isSome_splitWildcard?_iff h, splitsAtFirst_iff h, projects_iff h, ?_⟩
  rintro head rest hhead rfl root hroot
  exact hroot.get?_skipped hhead rest

/-- The identifiers of all users of all groups are read at their levels. The first users of every
group are not, although their path is split, and the cells of all rows of a grid are not found at
all. -/
theorem splitsAtFirst_projects_of_users :
    (Delimited "groups[*].users[*].id".toList ∧ SplitsAtFirst "groups[*].users[*].id".toList ∧
      Projects "groups[*].users[*].id".toList) ∧
    (Delimited "groups[*].users[*][0]".toList ∧
      (splitWildcard? "groups[*].users[*][0]".toList).isSome ∧
      ¬ Projects "groups[*].users[*][0]".toList) ∧
    (Delimited "grid[*][*].x".toList ∧
      ∀ root : Json, root.Unmarked → root.get? "grid[*][*].x".toList = none) := by
  have hids : Delimited "groups[*].users[*].id".toList := by decide
  have hspaced : Spaced "groups[*].users[*].id".toList := by decide
  have hfirst : Delimited "groups[*].users[*][0]".toList := by decide
  have hbracket : ¬ Spaced "groups[*].users[*][0]".toList := by decide
  have hcells : Delimited "grid[*][*].x".toList := by decide
  obtain ⟨-, hsplits, hprojects, -⟩ := splitsAtFirst_projects_iff hids
  obtain ⟨hsome, -, hprojects', -⟩ := splitsAtFirst_projects_iff hfirst
  obtain ⟨-, -, -, hnowhere⟩ := splitsAtFirst_projects_iff hcells
  refine ⟨⟨hids, hsplits.2 fun head after _ => hspaced head after, hprojects.2 hspaced⟩,
    ⟨hfirst, hsome.2 ?_, fun hread => hbracket (hprojects'.1 hread)⟩,
    hcells, hnowhere "grid".toList "*].x".toList (by decide) (by decide)⟩
  exact ⟨"groups".toList, ".users[*][0]".toList, by decide, by decide⟩

/-- A grid with one cell. -/
def oneCell : Json :=
  .object [("grid", .array [.array [.object [("x", .bool true)]]])]

/-- A path with a bracket behind a marker need not be split, though it has a marker. Where it is
split, it need not be at its first marker, and then it is not read at its levels: the cells of all
rows of the grid are not found. -/
theorem not_splitsAtFirst_projects :
    (¬ ∀ path, Delimited path → ((splitWildcard? path).isSome ↔ wildcard <:+: path)) ∧
    (¬ ∀ path head tail, Delimited path → splitWildcard? path = some (head, tail) →
      Plain head) ∧
    (¬ ∀ (path : List Char) (levels : List (List Char)) (root : Json), Delimited path →
      Levels path levels → root.get? path = root.project? levels) := by
  refine ⟨fun h => ?_, fun h => ?_, fun h => ?_⟩
  · have hiff := h "grid[*][0]".toList (by decide)
    revert hiff
    decide
  · have hsplit : splitWildcard? "grid[*][*].x".toList
        = some ("grid[*]".toList, some "x".toList) := by decide
    exact absurd (h _ _ _ (by decide) hsplit) (by decide)
  · have hlevels : Levels "grid[*][*].x".toList ["grid".toList, [], ".x".toList] := by
      show Levels ("grid".toList ++ wildcard ++ ([] ++ wildcard ++ ".x".toList)) _
      exact .marked (by decide) (.marked (by decide) (.last (by decide)))
    have hget : oneCell.get? "grid[*][*].x".toList = none := by with_unfolding_all rfl
    have hread : oneCell.project? ["grid".toList, [], ".x".toList]
        = some (.array [.array [.bool true]]) := by
      with_unfolding_all rfl
    have heq := h _ _ oneCell (by decide) hlevels
    rw [hget, hread] at heq
    cases heq

end Path
end DeclaredApi
