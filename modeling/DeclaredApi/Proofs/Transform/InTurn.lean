import DeclaredApi.Proofs.Path.Write
import DeclaredApi.Proofs.Transform.Elements

/-!
# `DeclaredApi.Proofs.Transform.InTurn`: rules together and rules in turn

One step with several rules, and one step for each rule in turn: where both succeed they have the
same result, if the rules are read alike (`TransformStep.apply_eq_of_inTurn`).

In an object the rules of a step apply one after the other, and so they do in turn, as long as the
object stays one: a rule may put an array in its place, and the rules after it then see the array
itself in the first way and its elements in the second (`renamedInTurn_of_foldlM`). Over an array
each element is renamed on its own (`renamedInTurn_array`). There a rule that starts with a marker
on both sides loses it, when it is alone or when all others do so too, and it is of no use to
objects when it is kept. So the rules of an array must agree (`Agree`). `not_apply_eq_of_inTurn`
shows two that do not.
-/

set_option autoImplicit false

namespace DeclaredApi

namespace Json

variable {data result : Json} {items : List Json} {rules : List PathPair} {rule : PathPair}

/-! ### One rule alone -/

/-- The rule without its markers, if both sides start with one. -/
def stripRule? (rule : PathPair) : Option PathPair := do
  let source ← Path.stripWildcard? rule.1
  let target ← Path.stripWildcard? rule.2
  return (source, target)

/-- The rules of an array all lose their markers, or none does that does anything. -/
def Agree (rules : List PathPair) : Prop :=
  (∀ rule ∈ rules, (stripRule? rule).isSome) ∨
    ∀ rule ∈ rules, (stripRule? rule).isSome → rule.1 = rule.2

/-- A rule alone loses its markers, if both its sides start with one. -/
theorem elementRules_singleton (rule : PathPair) :
    elementRules [rule] = [(stripRule? rule).getD rule] := by
  show (List.mapM stripRule? [rule]).getD [rule] = _
  rw [List.mapM_cons, List.mapM_nil]
  cases stripRule? rule <;> rfl

/-- A rule between paths with the same text does nothing. -/
theorem renamed_stay (data : Json) (path : List Char) : data.renamed [(path, path)] = .ok data := by
  induction data using inductionOnElements generalizing path with
  | items items ih =>
      obtain ⟨path', hpath⟩ : ∃ path', elementRules [(path, path)] = [(path', path')] := by
        rw [elementRules_singleton, stripRule?]
        cases Path.stripWildcard? path with
        | none => exact ⟨path, rfl⟩
        | some inner => exact ⟨inner, rfl⟩
      refine renamed_array_eq_ok_iff.2 ⟨items, rfl, ?_⟩
      rw [hpath, List.forall₂_same]
      exact fun item hmem => ih item hmem path'
  | other data hdata =>
      cases data with
      | array items => exact absurd rfl (hdata items)
      | object members =>
          have hstay : move path path = .stay := by
            rw [move, if_pos rfl]
          rw [renamed_object, List.foldlM_cons, hstay]
          rfl
      | _ => rfl

/-- Below an array the rules of the list are read as each of them is alone. -/
theorem Agree.alike (h : Agree rules) :
    List.Forall₂ (fun rule inner => ∀ item : Json,
      item.renamed (elementRules [rule]) = item.renamed [inner]) rules (elementRules rules) := by
  by_cases hall : ∀ rule ∈ rules, (stripRule? rule).isSome
  · have hrules : elementRules rules = rules.map fun rule => (stripRule? rule).getD rule :=
      mapM_getD_of_isSome hall
    rw [hrules, List.forall₂_map_right_iff, List.forall₂_same]
    intro rule _ item
    rw [elementRules_singleton]
  · -- A rule keeps its text, so they all do.
    have hrules : elementRules rules = rules := by
      obtain ⟨kept, hkept⟩ := not_forall.1 hall
      obtain ⟨hmem, hkept⟩ := Classical.not_imp.1 hkept
      exact mapM_getD_of_none hmem (Option.not_isSome_iff_eq_none.1 hkept)
    rw [hrules, List.forall₂_same]
    intro rule hmem item
    rw [elementRules_singleton]
    cases hstrip : stripRule? rule with
    | none => rfl
    | some inner =>
        -- A rule that would lose its markers does nothing with them and without.
        have hsome : (stripRule? rule).isSome := by
          rw [hstrip]
          rfl
        have hsame := h.resolve_left hall rule hmem hsome
        obtain ⟨source, target⟩ := rule
        cases hsame
        obtain ⟨source', hsource, hstrip⟩ := Option.bind_eq_some_iff.1 hstrip
        obtain ⟨target', htarget, hstrip⟩ := Option.bind_eq_some_iff.1 hstrip
        cases hstrip
        rw [hsource] at htarget
        cases htarget
        rw [Option.getD_some, renamed_stay, renamed_stay]

/-! ### Rules in turn -/

/-- The rules applied by a step for each of them. -/
def renamedInTurn (rules : List PathPair) (data : Json) : Except TransformError Json :=
  rules.foldlM (fun data rule => data.renamed [rule]) data

/-- In a value that is neither an array nor an object a path leads to that value or nowhere. -/
theorem eq_of_getAt?_leaf {steps : List Path.Step} (hleaf : data.isContainer = false)
    (h : data.getAt? steps = some result) : result = data := by
  by_cases hsteps : steps = []
  · subst hsteps
    exact (Option.some.inj h).symm
  · have hcontainer := isContainer_of_getAt? hsteps h
    rw [hleaf] at hcontainer
    cases hcontainer

/-- In a value that is neither an array nor an object no path leads to an array. -/
theorem not_getAt?_leaf_array {steps : List Path.Step} (hleaf : data.isContainer = false) :
    data.getAt? steps ≠ some (.array items) := by
  intro h
  rw [← eq_of_getAt?_leaf hleaf h] at hleaf
  cases hleaf

/-- There is nothing to delete in it. -/
theorem delete_leaf (hleaf : data.isContainer = false) (path : List Char) :
    data.delete path = data := by
  have hdelete : ∀ steps, (data.deleteAt? steps).getD data = data := by
    intro steps
    match steps with
    | [] => rfl
    | [step] => cases data <;> first | rfl | cases hleaf
    | step :: next :: rest => cases data <;> first | rfl | cases hleaf
  rw [delete]
  split
  · rfl
  · exact hdelete _

/-- A move does nothing to a value that is neither an array nor an object, where it succeeds. -/
theorem eq_of_apply_leaf {m : Move} (hleaf : data.isContainer = false)
    (h : m.apply data = .ok result) : result = data := by
  cases m with
  | stay => exact (Except.ok.inj h).symm
  | refused source target => cases h
  | member source target => cases data <;> first | exact (Except.ok.inj h).symm | cases hleaf
  | place source target =>
      rw [Move.apply, movePlace] at h
      split at h
      · next value hget =>
          obtain ⟨written, hplaced, rfl⟩ := exists_of_map_ok h
          have hvalue : value = data := by
            rw [get?] at hget
            cases hroute : Path.route source with
            | place steps =>
                rw [hroute] at hget
                exact eq_of_getAt?_leaf hleaf hget
            | each steps rest =>
                rw [hroute, follow?] at hget
                split at hget
                · next items hitems => exact absurd hitems (not_getAt?_leaf_array hleaf)
                · cases hget
          subst hvalue
          -- There is no room for a member or an item, so the value is written over itself.
          have hwritten : written = value := by
            obtain ⟨-, hassign⟩ := assigned_eq_ok_iff.1 (placed_eq_ok_iff.1 hplaced)
            cases hkeys : Path.keys target with
            | nil =>
                rw [hkeys] at hassign
                cases hassign
                rfl
            | cons key rest =>
                rw [hkeys] at hassign
                have hroom := (assignAt_cons_iff.1 hassign).1.isContainer
                rw [hleaf] at hroom
                cases hroom
          rw [hwritten, delete_leaf hleaf]
      · exact (Except.ok.inj h).symm
  | each head inner =>
      rw [Move.apply, moveEach] at h
      split at h
      · exact (Except.ok.inj h).symm
      · split at h
        · next items hitems => exact absurd hitems (not_getAt?_leaf_array hleaf)
        · exact (Except.ok.inj h).symm

/-- A rule does to a value that is no array what a step with that rule does. -/
theorem renamed_singleton (hdata : ∀ items, data ≠ .array items)
    (h : (move rule.1 rule.2).apply data = .ok result) : data.renamed [rule] = .ok result := by
  cases data with
  | array items => exact absurd rfl (hdata items)
  | object members =>
      rw [renamed_object, List.foldlM_cons, h]
      rfl
  | _ =>
      rw [eq_of_apply_leaf rfl h]
      rfl

/-- Rules do nothing to it in turn. -/
theorem renamedInTurn_leaf (hleaf : data.isContainer = false) (rules : List PathPair) :
    renamedInTurn rules data = .ok data := by
  induction rules with
  | nil => rfl
  | cons rule rest ih =>
      have hrule : data.renamed [rule] = .ok data := by
        cases data <;> first | rfl | cases hleaf
      rw [renamedInTurn, List.foldlM_cons, hrule]
      exact ih

/-- In an object, rules in turn do what they do together, while no array takes its place. -/
theorem renamedInTurn_of_foldlM (hdata : ∀ items, data ≠ .array items)
    (hstays : ∀ before rule after value, rules = before ++ rule :: after →
      before.foldlM (fun data rule => (move rule.1 rule.2).apply data) data = .ok value →
      ∀ items, value ≠ .array items)
    (h : rules.foldlM (fun data rule => (move rule.1 rule.2).apply data) data = .ok result) :
    renamedInTurn rules data = .ok result := by
  induction rules generalizing data with
  | nil => exact h
  | cons rule rest ih =>
      rw [List.foldlM_cons] at h
      obtain ⟨next, hnext, h⟩ := exists_of_bind_ok h
      rw [renamedInTurn, List.foldlM_cons, renamed_singleton hdata hnext]
      cases rest with
      | nil => exact h
      | cons second rest =>
          refine ih (hstays [rule] second rest next rfl ?_) ?_ h
          · rw [List.foldlM_cons, hnext]
            rfl
          · intro before other after value heq hvalue
            refine hstays (rule :: before) other after value (congrArg _ heq) ?_
            rw [List.foldlM_cons, hnext]
            exact hvalue

/-- Over an array, rules in turn do to each element what they do in turn there. -/
theorem renamedInTurn_array {inner : List PathPair}
    (hrules : List.Forall₂ (fun rule inner => ∀ item : Json,
      item.renamed (elementRules [rule]) = item.renamed [inner]) rules inner)
    (h : renamedInTurn rules (.array items) = .ok result) :
    ∃ changed, result = .array changed ∧
      List.Forall₂ (fun item value => renamedInTurn inner item = .ok value) items changed := by
  induction hrules generalizing items with
  | nil =>
      refine ⟨items, (Except.ok.inj h).symm, List.forall₂_same.2 fun item _ => rfl⟩
  | cons hrule _ ih =>
      obtain ⟨next, hnext, h⟩ := exists_of_bind_ok ((List.foldlM_cons ..).symm.trans h)
      obtain ⟨middle, rfl, hmiddle⟩ := renamed_array_eq_ok_iff.1 hnext
      obtain ⟨changed, rfl, hchanged⟩ := ih h
      have hboth := forall₂_bind_ok hmiddle hchanged
      refine ⟨changed, rfl, hboth.imp fun item value hitem => ?_⟩
      rw [renamedInTurn, List.foldlM_cons, ← hrule item]
      exact hitem

/-! ### Together and in turn -/

/-- A step reads its rules in the data as each of them is read alone: the rules of every array
agree, and no rule but the last of an object puts an array in its place. -/
structure ReadAlike (rules : List PathPair) (data : Json) : Prop where
  arrays : ∀ spot items, data.element? spot = some (.array items) →
    Agree (elementRules^[spot.length] rules)
  objects : ∀ spot members before rule after value,
    data.element? spot = some (.object members) →
    elementRules^[spot.length] rules = before ++ rule :: after →
    (Json.object members).renamed before = .ok value → ∀ items, value ≠ .array items

/-- Over an array rules are read alike exactly if they agree there, and the rules for its elements
are read alike in each of them. -/
theorem readAlike_array_iff :
    ReadAlike rules (.array items) ↔
      Agree rules ∧ ∀ item ∈ items, ReadAlike (elementRules rules) item := by
  constructor
  · intro h
    refine ⟨h.arrays [] items rfl, fun item hmem => ?_⟩
    obtain ⟨position, hposition⟩ := exists_element?_cons hmem
    constructor
    · intro spot inner hspot
      exact h.arrays (position :: spot) inner ((hposition spot).trans hspot)
    · intro spot members before rule after value hspot
      exact h.objects (position :: spot) members before rule after value
        ((hposition spot).trans hspot)
  · rintro ⟨hagree, hitems⟩
    -- A spot of an array is the array itself or a spot of one of its elements.
    constructor
    · intro spot inner hspot
      cases spot with
      | nil => exact hagree
      | cons position spot =>
          obtain ⟨item, hitem, hspot⟩ := Option.bind_eq_some_iff.1 hspot
          exact (hitems item (List.mem_of_getElem? hitem)).arrays spot inner hspot
    · intro spot members before rule after value hspot
      cases spot with
      | nil => cases hspot
      | cons position spot =>
          obtain ⟨item, hitem, hspot⟩ := Option.bind_eq_some_iff.1 hspot
          exact (hitems item (List.mem_of_getElem? hitem)).objects spot members before rule after
            value hspot

/-- In an object rules are read alike if no rule but the last puts an array in its place. -/
theorem readAlike_object {members : Dict Json}
    (h : ∀ before rule after value, rules = before ++ rule :: after →
      (Json.object members).renamed before = .ok value → ∀ items, value ≠ .array items) :
    ReadAlike rules (.object members) := by
  constructor
  · intro spot items hspot
    cases spot <;> cases hspot
  · intro spot other before rule after value hspot
    cases spot with
    | nil =>
        cases hspot
        exact h before rule after value
    | cons position spot => cases hspot

/-! ### Objects that stay objects -/

/-- An object stays one when something in it is deleted. -/
theorem exists_members_of_deleteAt? {members : Dict Json} {steps : List Path.Step}
    (h : (Json.object members).deleteAt? steps = some result) : ∃ left, result = .object left := by
  match steps with
  | [] => cases h
  | [step] => exact ⟨_, (Option.some.inj h).symm⟩
  | step :: next :: rest =>
      obtain ⟨child, -, h⟩ := Option.bind_eq_some_iff.1 h
      obtain ⟨left, -, h⟩ := Option.bind_eq_some_iff.1 h
      exact ⟨_, (Option.some.inj h).symm⟩

/-- So it does when a path is deleted. -/
theorem exists_members_of_delete (members : Dict Json) (path : List Char) :
    ∃ left, (Json.object members).delete path = .object left := by
  rw [delete]
  split
  · exact ⟨members, rfl⟩
  · cases hdelete : (Json.object members).deleteAt? (Path.steps path) with
    | none => exact ⟨members, rfl⟩
    | some left => exact exists_members_of_deleteAt? hdelete

/-- An object stays one when a value is put below it. -/
theorem exists_members_of_placed {members : Dict Json} {path : List Char} {value : Json}
    (hkeys : Path.keys path ≠ []) (h : (Json.object members).placed path value = .ok result) :
    ∃ left, result = .object left := by
  obtain ⟨-, hassign⟩ := assigned_eq_ok_iff.1 (placed_eq_ok_iff.1 h)
  obtain ⟨key, rest, hcons⟩ := List.exists_cons_of_ne_nil hkeys
  rw [hcons] at hassign
  obtain ⟨-, child, -, rfl⟩ := assignAt_cons_iff.1 hassign
  exact ⟨_, rfl⟩

/-- An object stays one when the elements of an array in it are changed. -/
theorem exists_members_of_moveEach {members : Dict Json} {head : List Char}
    {f : Json → Except TransformError Json}
    (h : (Json.object members).moveEach head f = .ok result) : ∃ left, result = .object left := by
  rw [moveEach] at h
  split at h
  · exact ⟨members, (Except.ok.inj h).symm⟩
  · split at h
    · next items hitems =>
        obtain ⟨changed, -, h⟩ := exists_of_bind_ok h
        obtain rfl := Except.ok.inj h
        cases hsteps : Path.steps head with
        | nil =>
            -- The object itself is no array.
            rw [hsteps] at hitems
            cases hitems
        | cons step rest =>
            rw [modifyAt?]
            cases hmodify : (Json.object members).modifyChild? step
                (modifyAt? (fun _ => some (.array changed)) rest) with
            | none => exact ⟨members, rfl⟩
            | some left =>
                obtain ⟨child, -, hmodify⟩ := Option.bind_eq_some_iff.1 hmodify
                obtain ⟨child', -, hmodify⟩ := Option.bind_eq_some_iff.1 hmodify
                exact ⟨_, (Option.some.inj hmodify).symm⟩
    · exact ⟨members, (Except.ok.inj h).symm⟩

/-- A move of a place has the target of its rule. -/
theorem target_of_move_eq_place {source target source' target' : List Char}
    (h : move source target = .place source' target') : target' = target := by
  rw [move] at h
  split_ifs at h
  · split at h
    · split at h <;> cases h
    · cases h
  · cases h
    rfl

/-- A rule leaves an object an object, unless its target is the object itself. -/
theorem exists_members_of_apply {members : Dict Json} (htarget : Path.keys rule.2 ≠ [])
    (h : (move rule.1 rule.2).apply (.object members) = .ok result) :
    ∃ left, result = .object left := by
  cases hmove : move rule.1 rule.2 with
  | stay =>
      rw [hmove] at h
      exact ⟨members, (Except.ok.inj h).symm⟩
  | refused source target =>
      rw [hmove] at h
      cases h
  | member source target =>
      rw [hmove] at h
      obtain rfl := Except.ok.inj h
      rw [moveMember]
      split <;> exact ⟨_, rfl⟩
  | place source target =>
      rw [hmove, Move.apply, movePlace] at h
      rw [← target_of_move_eq_place hmove] at htarget
      split at h
      · obtain ⟨placed, hplaced, rfl⟩ := exists_of_map_ok h
        obtain ⟨left, rfl⟩ := exists_members_of_placed htarget hplaced
        exact exists_members_of_delete left source
      · exact ⟨members, (Except.ok.inj h).symm⟩
  | each head inner =>
      rw [hmove] at h
      exact exists_members_of_moveEach h

/-- Rules whose targets have keys leave an object an object. -/
theorem exists_members_of_renamed {members : Dict Json}
    (htargets : ∀ rule ∈ rules, Path.keys rule.2 ≠ [])
    (h : (Json.object members).renamed rules = .ok result) : ∃ left, result = .object left := by
  rw [renamed_object] at h
  induction rules generalizing members with
  | nil => exact ⟨members, (Except.ok.inj h).symm⟩
  | cons rule rest ih =>
      obtain ⟨hrule, hrest⟩ := List.forall_mem_cons.1 htargets
      obtain ⟨next, hnext, h⟩ := exists_of_bind_ok ((List.foldlM_cons ..).symm.trans h)
      obtain ⟨left, rfl⟩ := exists_members_of_apply hrule hnext
      exact ih hrest h

/-- In an object, rules with targets inside it are read alike. -/
theorem readAlike_object_of_keys {members : Dict Json}
    (htargets : ∀ rule ∈ rules, Path.keys rule.2 ≠ []) : ReadAlike rules (.object members) := by
  refine readAlike_object fun before rule after value hrules hbefore items hvalue => ?_
  subst hrules
  obtain ⟨left, rfl⟩ := exists_members_of_renamed
    (fun rule hmem => htargets rule (List.mem_append_left _ hmem)) hbefore
  cases hvalue

/-- Where rules are read alike, they have one result together and in turn. -/
theorem renamed_eq_of_inTurn {result' : Json} (h : ReadAlike rules data)
    (htogether : data.renamed rules = .ok result) (hturn : renamedInTurn rules data = .ok result') :
    result = result' := by
  induction data using inductionOnElements generalizing rules result result' with
  | items items ih =>
      obtain ⟨hagree, halike⟩ := readAlike_array_iff.1 h
      obtain ⟨changed, rfl, hchanged⟩ := renamed_array_eq_ok_iff.1 htogether
      obtain ⟨changed', rfl, hchanged'⟩ := renamedInTurn_array hagree.alike hturn
      have hsame : changed = changed' := eq_of_forall₂_ok
        (fun item hmem _ _ hvalue hvalue' => ih item hmem (halike item hmem) hvalue hvalue')
        hchanged hchanged'
      rw [hsame]
  | other data hdata =>
      cases data with
      | array items => exact absurd rfl (hdata items)
      | object members =>
          have hstays : renamedInTurn rules (.object members) = .ok result :=
            renamedInTurn_of_foldlM hdata
              (fun before rule after value heq =>
                h.objects [] members before rule after value rfl heq)
              htogether
          exact Except.ok.inj (hstays.symm.trans hturn)
      | _ =>
          rw [renamedInTurn_leaf rfl] at hturn
          exact Except.ok.inj (htogether.symm.trans hturn)

end Json

namespace TransformStep

/-- Steps of one rule each are the rules in turn. -/
theorem foldlM_apply_eq (rules : List RenameRule) (data : Json) :
    rules.foldlM (fun data rule => TransformStep.apply { rename := some [rule] } data) data
      = Json.renamedInTurn (pathPairs rules) data := by
  induction rules generalizing data with
  | nil => rfl
  | cons rule rest ih =>
      rw [List.foldlM_cons, pathPairs, List.map_cons, Json.renamedInTurn, List.foldlM_cons,
        apply_rename (List.cons_ne_nil _ _)]
      exact congrArg _ (funext ih)

/-- One step with all rules and one step for each rule in turn have the same result where both
succeed, for all data in which the step reads its rules as each of them is read alone. -/
theorem apply_eq_of_inTurn {rules : List RenameRule} {data result result' : Json}
    (h : data.ReadAlike (pathPairs rules))
    (htogether : TransformStep.apply { rename := some rules } data = .ok result)
    (hturn : rules.foldlM (fun data rule => TransformStep.apply { rename := some [rule] } data) data
      = .ok result') : result = result' := by
  rw [foldlM_apply_eq] at hturn
  by_cases hrules : rules = []
  · subst hrules
    exact Except.ok.inj (htogether.symm.trans hturn)
  · rw [apply_rename hrules] at htogether
    exact Json.renamed_eq_of_inTurn h htogether hturn

/-- Two rules in turn. -/
theorem foldlM_apply_pair {first second : RenameRule} {data middle result : Json}
    (hfirst : TransformStep.apply { rename := some [first] } data = .ok middle)
    (hsecond : TransformStep.apply { rename := some [second] } middle = .ok result) :
    [first, second].foldlM
        (fun data rule => TransformStep.apply { rename := some [rule] } data) data
      = .ok result := by
  rw [List.foldlM_cons, hfirst]
  show (TransformStep.apply { rename := some [second] } middle >>= pure) = _
  rw [hsecond]
  rfl

/-- Pages of users, of which the second one is empty. -/
def userPages : Json :=
  .array [.array [.object [("id", .string "ada"), ("team", .null)]], .array []]

/-- Two rules for all users of all pages, the second one for what the first one makes. -/
def pageRules : List RenameRule :=
  [⟨"[*].[*].id", "[*].[*].user.id"⟩, ⟨"[*].[*].user.id", "[*].[*].team"⟩]

/-- Rules that all start with two markers agree over pages and users, and in turn they do the same
as together. -/
theorem apply_pageRules :
    ∃ result result',
      TransformStep.apply { rename := some pageRules } userPages = .ok result ∧
      pageRules.foldlM (fun data rule => TransformStep.apply { rename := some [rule] } data)
        userPages = .ok result' ∧
      result = result' := by
  have hagree : Json.Agree (pathPairs pageRules) ∧
      Json.Agree (elementRules (pathPairs pageRules)) := by
    unfold Json.Agree
    decide
  have halike : userPages.ReadAlike (pathPairs pageRules) := by
    refine Json.readAlike_array_iff.2 ⟨hagree.1, List.forall_mem_cons.2 ⟨?_,
      List.forall_mem_singleton.2 (Json.readAlike_array_iff.2 ⟨hagree.2, List.forall_mem_nil _⟩)⟩⟩
    refine Json.readAlike_array_iff.2 ⟨hagree.2, List.forall_mem_singleton.2 ?_⟩
    exact Json.readAlike_object_of_keys (by decide +kernel)
  have htogether : TransformStep.apply { rename := some pageRules } userPages
      = .ok (.array [.array [.object [("team", .string "ada"), ("user", .object [])]],
          .array []]) := by
    with_unfolding_all rfl
  have hname : TransformStep.apply { rename := some [⟨"[*].[*].id", "[*].[*].user.id"⟩] } userPages
      = .ok (.array [.array [.object [("team", .null), ("user", .object [("id", .string "ada")])]],
          .array []]) := by
    with_unfolding_all rfl
  have hturn : pageRules.foldlM
      (fun data rule => TransformStep.apply { rename := some [rule] } data) userPages
      = .ok (.array [.array [.object [("team", .string "ada"), ("user", .object [])]],
          .array []]) :=
    foldlM_apply_pair hname (by with_unfolding_all rfl)
  exact ⟨_, _, htogether, hturn, apply_eq_of_inTurn halike htogether hturn⟩

/-- One user. -/
def users : Json :=
  .array [.object [("id", .string "ada"), ("team", .null)]]

/-- A rule for all elements of an array, and a rule for each of them. -/
def mixedRules : List RenameRule :=
  [⟨"[*].id", "[*].key"⟩, ⟨"team", "squad"⟩]

/-- A member that holds an array. -/
def wrappedUsers : Dict Json :=
  [("page", .object [("users", .array [.object [("team", .null)]])])]

/-- The array takes the place of the object, and a member of its elements gets another name. -/
def unwrapRules : List RenameRule :=
  [⟨"page.users", "."⟩, ⟨"team", "squad"⟩]

/-- Rules that do not agree over an array may have two results: beside a rule without a marker, a
rule that starts with one does nothing to the elements. And so may rules that agree over all arrays
of the data, if one puts an array in the place of an object. -/
theorem not_apply_eq_of_inTurn :
    (¬ ∀ (rules : List RenameRule) (data result result' : Json),
      TransformStep.apply { rename := some rules } data = .ok result →
      rules.foldlM (fun data rule => TransformStep.apply { rename := some [rule] } data) data
        = .ok result' → result = result') ∧
    ¬ ∀ (rules : List RenameRule) (data result result' : Json),
      (∀ spot items, data.element? spot = some (.array items) →
        Json.Agree (elementRules^[spot.length] (pathPairs rules))) →
      TransformStep.apply { rename := some rules } data = .ok result →
      rules.foldlM (fun data rule => TransformStep.apply { rename := some [rule] } data) data
        = .ok result' → result = result' := by
  constructor
  · intro hsame
    have htogether : TransformStep.apply { rename := some mixedRules } users
        = .ok (.array [.object [("id", .string "ada"), ("squad", .null)]]) := by
      with_unfolding_all rfl
    have hid : TransformStep.apply { rename := some [⟨"[*].id", "[*].key"⟩] } users
        = .ok (.array [.object [("key", .string "ada"), ("team", .null)]]) := by
      with_unfolding_all rfl
    have hturn : mixedRules.foldlM
        (fun data rule => TransformStep.apply { rename := some [rule] } data) users
        = .ok (.array [.object [("key", .string "ada"), ("squad", .null)]]) :=
      foldlM_apply_pair hid (by with_unfolding_all rfl)
    have heq := hsame mixedRules users _ _ htogether hturn
    simp at heq
  · intro hsame
    have harrays : ∀ spot items, (Json.object wrappedUsers).element? spot = some (.array items) →
        Json.Agree (elementRules^[spot.length] (pathPairs unwrapRules)) := by
      intro spot items hspot
      cases spot <;> cases hspot
    have htogether : TransformStep.apply { rename := some unwrapRules } (.object wrappedUsers)
        = .ok (.array [.object [("team", .null)]]) := by
      with_unfolding_all rfl
    have hpage : TransformStep.apply { rename := some [⟨"page.users", "."⟩] } (.object wrappedUsers)
        = .ok (.array [.object [("team", .null)]]) := by
      with_unfolding_all rfl
    have hturn : unwrapRules.foldlM
        (fun data rule => TransformStep.apply { rename := some [rule] } data) (.object wrappedUsers)
        = .ok (.array [.object [("squad", .null)]]) :=
      foldlM_apply_pair hpage (by with_unfolding_all rfl)
    have heq := hsame unwrapRules (.object wrappedUsers) _ _ harrays htogether hturn
    simp at heq

end TransformStep
end DeclaredApi
