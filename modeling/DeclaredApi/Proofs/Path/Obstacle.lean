import DeclaredApi.Proofs.Path.Write

/-!
# `DeclaredApi.Proofs.Path.Obstacle`: an assignment is made as a whole or not at all

On its way down an assignment makes objects and adds slots to arrays, and it may find out only
further down that it cannot go on. `Obstructed` says where that happens, without the walker: the
keys lead to a value that has no place for the next one.

After the first object is made nothing is in the way any more, for below it there are only objects
that are made like it (`exists_assignAt_empty`). So an obstacle is met before anything is changed
(`exists_fault_of_obstructed`), and where there is none, the assignment succeeds
(`exists_assignAt_of_not_obstructed`). What it changes then above its target is that each container
there takes up one child (`exists_getAt?_putChild`): it stays of its kind, and an array grows only
if that child is new in it, so that nothing is below it yet.

`assign_all_or_nothing` is the law for paths.
-/

set_option autoImplicit false

namespace DeclaredApi.Json

open DeclaredApi.Path (position?)

variable {root value written child found : Json} {key : String} {names above rest : List String}
  {path : List Char}

/-! ### Obstacles -/

/-- A value that has no place for a child under the key. -/
inductive Obstacle (key : String) : Json → Prop where
  /-- It is neither an object nor an array. -/
  | leaf {root : Json} (h : root.isContainer = false) : Obstacle key root
  /-- It is an array, and the key is not a position. -/
  | noPosition {items : List Json} (h : position? key.toList = none) : Obstacle key (.array items)
  /-- It is an array, and the key is a position past the one after its last. -/
  | pastEnd {items : List Json} {position : Nat} (hposition : position? key.toList = some position)
      (hlt : items.length < position) : Obstacle key (.array items)

/-- The keys lead down to an obstacle, at the root or above the end. A null below the root is
none, for it counts as absent. -/
def Obstructed (names : List String) (root : Json) : Prop :=
  ∃ above key rest found, names = above ++ key :: rest ∧
    root.getAt? (above.map .key) = some found ∧ Obstacle key found ∧ (found = .null → above = [])

/-- A value is an obstacle exactly if it has no room for the key. -/
theorem obstacle_iff : Obstacle key root ↔ ¬ root.HasRoom key := by
  constructor
  · rintro (⟨hleaf⟩ | ⟨hposition⟩ | ⟨hposition, hlt⟩) hroom
    · rw [hroom.isContainer] at hleaf
      cases hleaf
    · obtain ⟨position, hsome, -⟩ := hroom
      rw [hposition] at hsome
      cases hsome
    · obtain ⟨position, hsome, hle⟩ := hroom
      rw [hposition] at hsome
      cases hsome
      omega
  · intro hroom
    cases root with
    | object members => exact absurd trivial hroom
    | array items =>
        cases hposition : position? key.toList with
        | none => exact .noPosition hposition
        | some position =>
            refine .pastEnd hposition (Nat.lt_of_not_le fun hle => ?_)
            exact hroom ⟨position, hposition, hle⟩
    | _ => exact .leaf rfl

/-- An obstacle below a child is one below its parent, unless the child counts as absent. -/
theorem Obstructed.of_child? (h : Obstructed rest child)
    (hchild : root.child? (.key key) = some child) (hnull : child ≠ .null) :
    Obstructed (key :: rest) root := by
  obtain ⟨above, next, rest, found, rfl, hget, hobstacle, habsent⟩ := h
  refine ⟨key :: above, next, rest, found, rfl, ?_, hobstacle, fun hfound => ?_⟩
  · rw [List.map_cons, getAt?, hchild]
    exact hget
  · subst hfound
    rw [habsent rfl] at hget
    cases hget
    exact absurd rfl hnull

/-! ### An obstacle stops an assignment -/

/-- A child that is there and not null is kept. -/
theorem parentOrNew_of_ne_null (h : child ≠ .null) : parentOrNew (some child) = child := by
  cases child <;> first | rfl | exact absurd rfl h

/-- At an obstacle an assignment fails and leaves the value as it was. -/
theorem exists_fault_of_obstacle (h : Obstacle key root) (value : Json) (rest : List Path.Step) :
    ∃ fault, assignAt value (.key key :: rest) root = (root, some fault) := by
  have hasPosition : (Path.Step.key key).asPosition? = position? key.toList := rfl
  cases h with
  | leaf hleaf => cases root <;> first | exact ⟨_, rfl⟩ | cases hleaf
  | noPosition hposition =>
      rw [assignAt, hasPosition, hposition]
      exact ⟨_, rfl⟩
  | pastEnd hposition hlt =>
      rw [assignAt, hasPosition, hposition]
      exact ⟨_, if_pos hlt⟩

/-- A child that is not null and has no children stops an assignment that goes on below it. -/
theorem exists_fault_of_leaf (hchild : root.child? (.key key) = some child) (hnull : child ≠ .null)
    (hleaf : child.isContainer = false) {rest : List Path.Step} (hrest : rest ≠ []) :
    ∃ fault, assignAt value (.key key :: rest) root = (root, some fault) := by
  have hkey : (Path.Step.key key).asKey = key := rfl
  have hasPosition : (Path.Step.key key).asPosition? = position? key.toList := rfl
  have hparent : (parentOrNew (some child)).isContainer = false := by
    rwa [parentOrNew_of_ne_null hnull]
  have hempty : rest.isEmpty = false := List.isEmpty_eq_false_iff.2 hrest
  cases root with
  | object members =>
      have hfind : Dict.find? key members = some child := hchild
      rw [assignAt, hkey, hfind, hempty, hparent]
      exact ⟨_, rfl⟩
  | array items =>
      obtain ⟨position, hposition, hlt, hitem⟩ := exists_position_of_child? hchild
      have hitem : items[position]? = some child := List.getElem?_eq_some_iff.2 ⟨hlt, hitem⟩
      have hinside : ¬ items.length < position := by omega
      have hgrown : ¬ position = items.length := by omega
      rw [assignAt, hasPosition, hposition]
      simp only [hinside, if_false, hitem, hempty, hparent, hgrown, Bool.false_eq_true]
      exact ⟨_, rfl⟩
  | _ => cases hchild

/-- Where the keys lead to an obstacle an assignment fails, and leaves everything as it was. -/
theorem exists_fault_of_obstructed (h : root.Ordered) (hnames : Obstructed names root)
    (value : Json) : ∃ fault, assignAt value (names.map .key) root = (root, some fault) := by
  obtain ⟨above, key, rest, found, rfl, hget, hobstacle, habsent⟩ := hnames
  induction above generalizing root with
  | nil =>
      cases hget
      exact exists_fault_of_obstacle hobstacle value _
  | cons next above ih =>
      obtain ⟨child, hchild, hget⟩ := Option.bind_eq_some_iff.1 hget
      have hfound : found ≠ .null := fun hnull =>
        absurd (habsent hnull) (List.cons_ne_nil _ _)
      have hbelow : (above ++ key :: rest).map Path.Step.key ≠ [] := by simp
      cases hcontainer : child.isContainer with
      | true =>
          -- The walk goes on in the child, which comes out as it was.
          obtain ⟨fault, hfault⟩ := ih (h.child? hchild) hget fun hnull => absurd hnull hfound
          refine ⟨fault, assignAt_cons_eq_self h hchild (fun _ => ?_) ?_⟩
          · rwa [parentOrNew_some hcontainer]
          · rwa [parentOrNew_some hcontainer]
      | false =>
          -- The child is what is found, for nothing is below it.
          have hnull : child ≠ .null := by
            rintro rfl
            cases above with
            | nil =>
                cases hget
                exact hfound rfl
            | cons _ _ => cases hget
          exact exists_fault_of_leaf hchild hnull hcontainer hbelow

/-- Where the keys do not lead to an obstacle an assignment succeeds. -/
theorem exists_assignAt_of_not_obstructed (h : ¬ Obstructed names root) (value : Json) :
    ∃ written, assignAt value (names.map .key) root = (written, none) := by
  induction names generalizing root with
  | nil => exact ⟨value, rfl⟩
  | cons key rest ih =>
      have hroom : root.HasRoom key := by
        by_contra hroom
        exact h ⟨[], key, rest, root, rfl, rfl, obstacle_iff.2 hroom, fun _ => rfl⟩
      -- Below a parent that is made here nothing is in the way.
      have hbelow : ∃ made,
          assignAt value (rest.map .key) (parentOrNew (root.child? (.key key))) = (made, none) := by
        cases hchild : root.child? (.key key) with
        | none => exact exists_assignAt_empty value rest
        | some child =>
            by_cases hnull : child = .null
            · subst hnull
              exact exists_assignAt_empty value rest
            · rw [parentOrNew_of_ne_null hnull]
              exact ih fun hrest => h (hrest.of_child? hchild hnull)
      obtain ⟨made, hmade⟩ := hbelow
      exact ⟨_, assignAt_cons_iff.2 ⟨hroom, made, hmade, rfl⟩⟩

/-! ### What becomes of the containers above the target -/

/-- A container above the target takes up one child. -/
theorem exists_getAt?_putChild
    (hassign : assignAt value ((above ++ key :: rest).map .key) root = (written, none))
    (hget : root.getAt? (above.map .key) = some found) (hfound : found.isContainer = true) :
    ∃ made, written.getAt? (above.map .key) = some (found.putChild key made) := by
  induction above generalizing root written with
  | nil =>
      cases hget
      obtain ⟨-, made, -, rfl⟩ := assignAt_cons_iff.1 hassign
      exact ⟨made, rfl⟩
  | cons next above ih =>
      obtain ⟨child, hchild, hget⟩ := Option.bind_eq_some_iff.1 hget
      obtain ⟨hroom, made, hmade, rfl⟩ := assignAt_cons_iff.1 hassign
      rw [hchild, parentOrNew_some (isContainer_of_getAt?_container hget hfound)] at hmade
      obtain ⟨put, hput⟩ := ih hmade hget
      refine ⟨put, ?_⟩
      rw [List.map_cons, getAt?, child?_putChild_self hroom]
      exact hput

/-- The keys lead to a place strictly above the one that the names lead to. -/
def EndsAbove (above names : List String) : Prop :=
  above <+: names ∧ above ≠ names

/-- The array at the keys, on the way to the end of the names, has become longer. -/
def Grown (names : List String) (root written : Json) (above : List String) : Prop :=
  EndsAbove above names ∧ ∃ items items',
    root.getAt? (above.map .key) = some (.array items) ∧
    written.getAt? (above.map .key) = some (.array items') ∧ items.length < items'.length

/-- What an assignment leaves of the containers above its target. -/
structure KeepsAbove (names : List String) (root written : Json) : Prop where
  /-- An object stays an object, and an array stays an array. -/
  sameKind : ∀ above found, EndsAbove above names → root.getAt? (above.map .key) = some found →
    found.isContainer = true →
    ∃ found', written.getAt? (above.map .key) = some found' ∧ SameKind found' found
  /-- An array keeps its length, or grows by one slot. -/
  length : ∀ above items items', EndsAbove above names →
    root.getAt? (above.map .key) = some (.array items) →
    written.getAt? (above.map .key) = some (.array items') →
    items'.length = items.length ∨ items'.length = items.length + 1
  /-- No two arrays grow. -/
  once : ∀ above above', Grown names root written above → Grown names root written above' →
    above = above'

/-- Above the end of the names stand those keys that some name follows. -/
theorem endsAbove_iff : EndsAbove above names ↔ ∃ key rest, names = above ++ key :: rest := by
  constructor
  · rintro ⟨⟨more, rfl⟩, hne⟩
    cases more with
    | nil => exact absurd (List.append_nil above).symm hne
    | cons key rest => exact ⟨key, rest, rfl⟩
  · rintro ⟨key, rest, rfl⟩
    exact ⟨List.prefix_append above _, by simp⟩

/-- An array that grows has nothing yet at the position that is added. -/
theorem child?_eq_none_of_grown
    (hassign : assignAt value ((above ++ key :: rest).map .key) root = (written, none))
    (h : Grown (above ++ key :: rest) root written above)
    (hget : root.getAt? (above.map .key) = some found) : found.child? (.key key) = none := by
  obtain ⟨-, items, items', hitems, hitems', hlt⟩ := h
  rw [hitems] at hget
  cases hget
  obtain ⟨made, hput⟩ := exists_getAt?_putChild hassign hitems rfl
  cases hchild : (Json.array items).child? (.key key) with
  | none => rfl
  | some child =>
      -- In the place of a child that is there an array does not grow.
      obtain ⟨items'', heq, hlength⟩ := exists_putChild_array_of_child? hchild made
      rw [hitems', heq] at hput
      cases hput
      omega

/-- An array below one that grows is not there before. -/
theorem Grown.not_endsAbove {above' : List String}
    (hassign : assignAt value (names.map .key) root = (written, none))
    (h : Grown names root written above) (h' : Grown names root written above') :
    ¬ EndsAbove above above' := by
  intro habove
  obtain ⟨key, rest, rfl⟩ := endsAbove_iff.1 habove
  obtain ⟨key', rest', rfl⟩ := endsAbove_iff.1 h'.1
  obtain ⟨-, items, -, hget, -⟩ := h'
  rw [List.map_append, getAt?_append] at hget
  obtain ⟨found, hfound, hget⟩ := Option.bind_eq_some_iff.1 hget
  have hsplit :
      above ++ key :: rest ++ key' :: rest' = above ++ key :: (rest ++ key' :: rest') := by
    rw [List.append_assoc, List.cons_append]
  rw [hsplit] at hassign h
  have hnone := child?_eq_none_of_grown hassign h hfound
  rw [List.map_cons, getAt?, hnone] at hget
  cases hget

/-- An assignment that succeeds keeps what is above its target. -/
theorem keepsAbove_of_assignAt (hassign : assignAt value (names.map .key) root = (written, none)) :
    KeepsAbove names root written where
  sameKind above found habove hget hfound := by
    obtain ⟨key, rest, rfl⟩ := endsAbove_iff.1 habove
    obtain ⟨made, hput⟩ := exists_getAt?_putChild hassign hget hfound
    exact ⟨_, hput, SameKind.putChild hfound key made⟩
  length above items items' habove hitems hitems' := by
    obtain ⟨key, rest, rfl⟩ := endsAbove_iff.1 habove
    obtain ⟨made, hput⟩ := exists_getAt?_putChild hassign hitems rfl
    obtain ⟨items'', heq, hlength⟩ := exists_putChild_array items key made
    rw [hitems', heq] at hput
    cases hput
    split at hlength
    · exact Or.inr hlength
    · exact Or.inl hlength
  once above above' h h' := by
    by_contra hne
    -- Of two places on one way one is above the other.
    rcases List.prefix_or_prefix_of_prefix h.1.1 h'.1.1 with habove | habove
    · exact h.not_endsAbove hassign h' ⟨habove, hne⟩
    · exact h'.not_endsAbove hassign h ⟨habove, Ne.symm hne⟩

/-! ### Paths -/

/-- An assignment meets a marker or an obstacle, and leaves the value as it was, or it meets
neither, and succeeds. -/
theorem assign_cases (h : root.Ordered) (path : List Char) (value : Json) :
    ((¬ Path.Plain path ∨ Obstructed (Path.keys path) root) ∧
      ∃ fault, root.assign path value = (root, some fault)) ∨
    (Path.Plain path ∧ ¬ Obstructed (Path.keys path) root ∧
      ∃ written, root.assign path value = (written, none)) := by
  by_cases hplain : Path.Plain path
  · by_cases hnames : Obstructed (Path.keys path) root
    · obtain ⟨fault, hfault⟩ := exists_fault_of_obstructed h hnames value
      refine Or.inl ⟨Or.inr hnames, ?_⟩
      rw [assign_of_plain hplain, hfault]
      exact ⟨_, rfl⟩
    · obtain ⟨written, hwritten⟩ := exists_assignAt_of_not_obstructed hnames value
      exact Or.inr ⟨hplain, hnames, written, (assign_eq_iff_of_plain hplain).2 hwritten⟩
  · exact Or.inl ⟨Or.inl hplain, _, assign_of_not_plain hplain root value⟩

/-- An assignment that fails leaves the value as it was. -/
theorem eq_of_assign_fault {left : Json} {fault : PathError} (h : root.Ordered)
    (hassign : root.assign path value = (left, some fault)) : left = root := by
  rcases assign_cases h path value with ⟨-, fault', hfault⟩ | ⟨-, -, written, hwritten⟩
  · rw [hfault] at hassign
    cases hassign
    rfl
  · rw [hwritten] at hassign
    cases hassign

/-- An assignment fails exactly where its path has a marker, or its keys lead to an obstacle. Then
it leaves the value as it was. Where it succeeds, the containers above its target stay what they
are, and no more than one array among them grows, by one slot. -/
theorem assign_all_or_nothing {left : Json} {fault : Option PathError} (h : root.Ordered)
    (hassign : root.assign path value = (left, fault)) :
    (fault ≠ none ↔ ¬ Path.Plain path ∨ Obstructed (Path.keys path) root) ∧
    (fault ≠ none → left = root) ∧
    (fault = none → KeepsAbove (Path.keys path) root left) := by
  rcases assign_cases h path value with
    ⟨hstops, stopped, hstopped⟩ | ⟨hplain, hfree, written, hwritten⟩
  · -- The assignment has failed, as it does where something stops it.
    rw [hstopped] at hassign
    cases hassign
    have hfailed : some stopped ≠ none := Option.some_ne_none stopped
    exact ⟨⟨fun _ => hstops, fun _ => hfailed⟩, fun _ => rfl, fun hnone => absurd hnone hfailed⟩
  · -- It has succeeded, and nothing stops it.
    have hkeeps := keepsAbove_of_assignAt ((assign_eq_iff_of_plain hplain).1 hwritten)
    have hstops : ¬ (¬ Path.Plain path ∨ Obstructed (Path.keys path) root) := by
      rintro (hmarker | hobstructed)
      · exact hmarker hplain
      · exact hfree hobstructed
    rw [hwritten] at hassign
    cases hassign
    exact ⟨⟨fun hfault => absurd rfl hfault, fun h => absurd h hstops⟩,
      fun hfault => absurd rfl hfault, fun _ => hkeeps⟩

/-- An order with one item. -/
def penOrder : Json :=
  .object [("items", .array [.object [("sku", .string "pen")]]), ("note", .null)]

/-- A second item is appended with the objects that it needs, and a third one cannot be yet. -/
theorem assign_appends_or_fails :
    (∃ left, penOrder.assign "items[1].tags.0".toList (.string "new") = (left, none) ∧
      KeepsAbove (Path.keys "items[1].tags.0".toList) penOrder left) ∧
    ∃ fault, penOrder.assign "items[2].tags.0".toList (.string "new") = (penOrder, some fault) ∧
      Obstructed (Path.keys "items[2].tags.0".toList) penOrder := by
  have hordered : penOrder.Ordered := by
    simp only [penOrder, Ordered, OrderedMembers, OrderedItems, Dict.Sorted]
    decide
  have happended : penOrder.assign "items[1].tags.0".toList (.string "new")
      = (.object [("items", .array [.object [("sku", .string "pen")],
          .object [("tags", .object [("0", .string "new")])]]), ("note", .null)], none) := by
    with_unfolding_all rfl
  have hfailed : penOrder.assign "items[2].tags.0".toList (.string "new")
      = (penOrder, some ⟨"items[2].tags.0", .outOfRange 2 1⟩) := by
    with_unfolding_all rfl
  have hplain : Path.Plain "items[2].tags.0".toList := by decide
  obtain ⟨-, -, hkeeps⟩ := assign_all_or_nothing hordered happended
  obtain ⟨hreason, -, -⟩ := assign_all_or_nothing hordered hfailed
  refine ⟨⟨_, happended, hkeeps rfl⟩, _, hfailed, ?_⟩
  exact (hreason.1 (Option.some_ne_none _)).resolve_left (not_not_intro hplain)

end DeclaredApi.Json
