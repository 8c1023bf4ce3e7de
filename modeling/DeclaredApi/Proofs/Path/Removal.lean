import DeclaredApi.Proofs.Path.Delete

/-!
# `DeclaredApi.Proofs.Path.Removal`: what a deletion does

A deletion goes down to the parent of what it deletes, and does there what its kind asks for: an
object loses the member, and an array gets a null in the place of the item, so that it keeps its
length (`getAt?_without_cases`). On the way down every parent takes its child back
(`without_cons_of_child?`), and `inductionOnDeletion` goes that way. So where nothing is read
nothing is changed (`without_eq_self`), and to delete once more changes nothing
(`without_without`). All arrays that are not inside the deleted value are as long as before
(`exists_array_without_of_outside`): an array on the way down has a child put back, and all others
are in slots that the deletion does not come to.

`delete_removes` is the law for paths. A value is inside the deleted one if its place starts with
the place of the path, whatever keys lead to it.
-/

set_option autoImplicit false

namespace DeclaredApi.Json

open DeclaredApi.Path (Step position?)

variable {root child found parent : Json} {key : String} {rest names others : List String}
  {path : List Char}

/-! ### One step down -/

/-- Deleting a child a second time changes nothing. -/
theorem deleteChild_deleteChild (root : Json) (key : String) :
    (root.deleteChild (.key key)).deleteChild (.key key) = root.deleteChild (.key key) := by
  cases root with
  | object members => exact deleteChild_eq_self (child?_deleteChild_object members key)
  | array items =>
      cases hposition : position? key.toList with
      | none => simp only [deleteChild, Step.asPosition?, hposition]
      | some position => simp only [deleteChild, Step.asPosition?, hposition, List.set_set]
  | _ => rfl

/-- A value stays sorted when a child is deleted. -/
theorem Ordered.deleteChild (h : root.Ordered) (key : String) :
    (root.deleteChild (.key key)).Ordered := by
  cases root with
  | object members =>
      rw [Ordered, orderedMembers_iff] at h
      rw [Json.deleteChild, Ordered, orderedMembers_iff]
      exact ⟨Dict.sorted_filter h.1 _, fun member hmem => h.2 member (List.mem_of_mem_filter hmem)⟩
  | array items =>
      have hitems := ordered_array_iff.1 h
      rw [Json.deleteChild]
      split
      · refine ordered_array_iff.2 fun item hmem => ?_
        rcases List.mem_or_eq_of_mem_set hmem with hmem | rfl
        · exact hitems item hmem
        · trivial
      · exact h
  | _ => exact h

/-! ### Down along keys -/

/-- Nothing is deleted below a child that is not there. -/
theorem without_cons_of_absent (hrest : rest ≠ []) (hchild : root.child? (.key key) = none) :
    root.without (key :: rest) = root := by
  rw [without, deleteAt?_cons root key hrest, hchild]
  rfl

/-- A deletion further down puts what it leaves of the child back in its place. -/
theorem without_cons_of_child? (h : root.Ordered) (hrest : rest ≠ [])
    (hchild : root.child? (.key key) = some child) :
    root.without (key :: rest) = root.putChild key (child.without rest) := by
  rw [without, deleteAt?_cons root key hrest, hchild, Option.bind_eq_bind, Option.bind_some,
    without]
  cases child.deleteAt? (rest.map .key) with
  | none => exact (putChild_eq_self h hchild).symm
  | some left => rfl

/-- Induction along a deletion in a value whose members are in order. It ends before its first key,
at its last one or where a child is absent, and otherwise goes on in the child. -/
theorem inductionOnDeletion {motive : ∀ root : Json, root.Ordered → List String → Prop}
    (nil : ∀ root h, motive root h [])
    (last : ∀ root h key, motive root h [key])
    (absent : ∀ root h key rest, rest ≠ [] → root.child? (.key key) = none →
      motive root h (key :: rest))
    (below : ∀ root h key rest child (hchild : root.child? (.key key) = some child), rest ≠ [] →
      motive child (h.child? hchild) rest → motive root h (key :: rest))
    (h : root.Ordered) (names : List String) : motive root h names := by
  induction names generalizing root with
  | nil => exact nil root h
  | cons key rest ih =>
      by_cases hrest : rest = []
      · subst hrest
        exact last root h key
      · cases hchild : root.child? (.key key) with
        | none => exact absent root h key rest hrest hchild
        | some child => exact below root h key rest child hchild hrest (ih (h.child? hchild))

/-- Deleting leaves the members of all objects in order. -/
theorem Ordered.without (h : root.Ordered) (names : List String) :
    (root.without names).Ordered := by
  induction h, names using inductionOnDeletion with
  | nil root h => exact h
  | last root h key => exact h.deleteChild key
  | absent root h key rest hrest hchild => rwa [without_cons_of_absent hrest hchild]
  | below root h key rest child hchild hrest ih =>
      rw [without_cons_of_child? h hrest hchild]
      exact h.putChild ih

/-- Where nothing is read, a deletion changes nothing. -/
theorem without_eq_self (h : root.Ordered) (hget : root.getAt? (names.map .key) = none) :
    root.without names = root := by
  induction h, names using inductionOnDeletion with
  | nil root h => rfl
  | last root h key =>
      rw [List.map_singleton, getAt?] at hget
      refine deleteChild_eq_self ?_
      cases hchild : root.child? (.key key) with
      | none => rfl
      | some child =>
          rw [hchild] at hget
          cases hget
  | absent root h key rest hrest hchild => exact without_cons_of_absent hrest hchild
  | below root h key rest child hchild hrest ih =>
      rw [List.map_cons, getAt?, hchild] at hget
      rw [without_cons_of_child? h hrest hchild, ih hget, putChild_eq_self h hchild]

/-- A second deletion changes nothing. -/
theorem without_without (h : root.Ordered) (names : List String) :
    (root.without names).without names = root.without names := by
  induction h, names using inductionOnDeletion with
  | nil root h => rfl
  | last root h key => exact deleteChild_deleteChild root key
  | absent root h key rest hrest hchild =>
      rw [without_cons_of_absent hrest hchild, without_cons_of_absent hrest hchild]
  | below root h key rest child hchild hrest ih =>
      -- The second deletion finds what the first one has left of the child, and leaves it.
      have hafter := h.without (key :: rest)
      rw [without_cons_of_child? h hrest hchild] at hafter ⊢
      have hleft : (root.putChild key (child.without rest)).child? (.key key)
          = some (child.without rest) := child?_putChild_self (hasRoom_of_child? hchild)
      rw [without_cons_of_child? hafter hrest hleft, ih, putChild_eq_self hafter hleft]

/-! ### At the deleted place -/

/-- At the place of what was deleted there is what its parent has left there. -/
theorem getAt?_without_self (hparent : root.getAt? (names.map .key) = some parent) :
    (root.without (names ++ [key])).getAt? ((names ++ [key]).map .key)
      = (parent.deleteChild (.key key)).child? (.key key) := by
  induction names generalizing root with
  | nil =>
      cases hparent
      show (parent.deleteChild (.key key)).child? (.key key) >>= getAt? [] = _
      cases (parent.deleteChild (.key key)).child? (.key key) <;> rfl
  | cons next names ih =>
      obtain ⟨child, hchild, hparent⟩ := Option.bind_eq_some_iff.1 hparent
      have hbelow : names ++ [key] ≠ [] := by simp
      exact (getAt?_without_cons hbelow hchild rfl).trans (ih hparent)

/-- A parent that is an object has nothing left at the deleted place, and one that is an array has
a null. -/
theorem getAt?_without_cases (hget : root.getAt? ((names ++ [key]).map .key) = some found) :
    (∃ members, root.getAt? (names.map .key) = some (.object members) ∧
      (root.without (names ++ [key])).getAt? ((names ++ [key]).map .key) = none) ∨
    ∃ items, root.getAt? (names.map .key) = some (.array items) ∧
      (root.without (names ++ [key])).getAt? ((names ++ [key]).map .key) = some .null := by
  rw [List.map_append, getAt?_append] at hget
  obtain ⟨parent, hparent, hget⟩ := Option.bind_eq_some_iff.1 hget
  obtain ⟨child, hchild, -⟩ := Option.bind_eq_some_iff.1 hget
  rw [getAt?_without_self hparent]
  cases parent with
  | object members => exact Or.inl ⟨members, hparent, child?_deleteChild_object members key⟩
  | array items => exact Or.inr ⟨items, hparent, child?_deleteChild_array hchild⟩
  | _ => cases hchild

/-! ### Arrays outside the deleted value -/

/-- An array in which something is deleted keeps its length. -/
theorem exists_array_without (items : List Json) (names : List String) :
    ∃ items', (Json.array items).without names = .array items' ∧ items'.length = items.length := by
  cases names with
  | nil => exact ⟨items, rfl, rfl⟩
  | cons key rest =>
      by_cases hrest : rest = []
      · subst hrest
        rw [without_singleton, deleteChild]
        split
        · exact ⟨_, rfl, List.length_set⟩
        · exact ⟨items, rfl, rfl⟩
      · rw [without, deleteAt?_cons _ key hrest]
        cases hleft : (Json.array items).child? (.key key) >>= deleteAt? (rest.map .key) with
        | none => exact ⟨items, rfl, rfl⟩
        | some left =>
            obtain ⟨child, hchild, -⟩ := Option.bind_eq_some_iff.1 hleft
            exact exists_putChild_array_of_child? hchild left

/-- An array that is not inside the deleted value is there afterwards, as long as before. -/
theorem exists_array_without_of_outside {items : List Json}
    (hget : root.getAt? (names.map .key) = some found)
    (harray : root.getAt? (others.map .key) = some (.array items))
    (houtside : ¬ root.place names <+: root.place others) :
    ∃ items', (root.without names).getAt? (others.map .key) = some (.array items') ∧
      items'.length = items.length := by
  induction names generalizing root others with
  | nil => exact absurd List.nil_prefix houtside
  | cons key rest ih =>
      cases others with
      | nil =>
          cases harray
          obtain ⟨items', hleft, hlength⟩ := exists_array_without items (key :: rest)
          exact ⟨items', by rw [hleft]; rfl, hlength⟩
      | cons other others =>
          by_cases hslot : root.slot key = root.slot other
          · -- The array is in the same child, so the deletion goes on below it.
            obtain ⟨child, hchild, hget⟩ := Option.bind_eq_some_iff.1 hget
            have hother : root.child? (.key other) = some child :=
              (child?_of_slot_eq hslot).symm.trans hchild
            obtain ⟨child', hchild', harray⟩ := Option.bind_eq_some_iff.1 harray
            rw [hother] at hchild'
            cases hchild'
            rw [place_cons_of_child? hchild, place_cons_of_child? hother, hslot,
              List.cons_prefix_cons] at houtside
            have hrest : rest ≠ [] := by
              rintro rfl
              exact houtside ⟨rfl, List.nil_prefix⟩
            rw [getAt?_without_cons hrest hchild hslot]
            exact ih hget harray fun hbelow => houtside ⟨rfl, hbelow⟩
          · -- The deletion leaves the slot that the array is in.
            refine ⟨items, ?_, rfl⟩
            rw [List.map_cons, getAt?, child?_without_of_ne hslot]
            exact harray

/-! ### Paths -/

/-- A deletion changes nothing where the path has a marker or no keys, or leads nowhere. Otherwise
nothing is at the path afterwards if the parent is an object, and null if it is an array, and all
arrays that are not inside the deleted value keep their lengths. A second deletion changes
nothing. -/
theorem delete_removes (h : root.Ordered) (path : List Char) :
    (¬ Path.Plain path ∨ Path.keys path = [] ∨ root.get? path = none →
      root.delete path = root) ∧
    (∀ above last, Path.Plain path → Path.keys path = above ++ [last] →
      (root.get? path).isSome →
      ((∃ members, root.getAt? (above.map .key) = some (.object members) ∧
          (root.delete path).get? path = none) ∨
        ∃ items, root.getAt? (above.map .key) = some (.array items) ∧
          (root.delete path).get? path = some .null) ∧
      ∀ names items, root.getAt? (names.map .key) = some (.array items) →
        ¬ root.place (Path.keys path) <+: root.place names →
        ∃ items', (root.delete path).getAt? (names.map .key) = some (.array items') ∧
          items'.length = items.length) ∧
    (root.delete path).delete path = root.delete path := by
  by_cases hplain : Path.Plain path
  · rw [delete_of_plain hplain, delete_of_plain hplain, get?_of_plain hplain, get?_of_plain hplain]
    refine ⟨?_, fun above last _ hkeys hsome => ?_, without_without h _⟩
    · rintro (hmarker | hkeys | hnone)
      · exact absurd hplain hmarker
      · rw [hkeys]
        rfl
      · exact without_eq_self h hnone
    · obtain ⟨found, hfound⟩ := Option.isSome_iff_exists.1 hsome
      refine ⟨?_, fun names items => exists_array_without_of_outside hfound⟩
      rw [hkeys] at hfound ⊢
      exact getAt?_without_cases hfound
  · -- A deletion at a path with a marker does nothing.
    have hself : root.delete path = root := by
      rw [delete, Path.isWildcard_of_not_plain hplain]
      rfl
    rw [hself, hself]
    exact ⟨fun _ => rfl, fun _ _ hmarker => absurd hmarker hplain, rfl⟩

/-- A table with two rows, of which the first one has a row inside. -/
def table : Json :=
  .object [("rows", .array [.object [("cells", .array [.null])], .array [.bool true]])]

/-- A row is deleted, and leaves the rows as many as they were and the other row as it was. -/
theorem delete_removes_firstRow :
    (table.delete "rows[0]".toList).get? "rows[0]".toList = some .null ∧
      (∃ rows, (table.delete "rows[0]".toList).getAt? [.key "rows"] = some (.array rows) ∧
        rows.length = 2) ∧
      (table.delete "rows[0]".toList).delete "rows[0]".toList
        = table.delete "rows[0]".toList := by
  have hordered : table.Ordered := by
    simp only [table, Ordered, OrderedMembers, OrderedItems, Dict.Sorted]
    decide
  have hkeys : Path.keys "rows[0]".toList = ["rows"] ++ ["0"] := by with_unfolding_all rfl
  have hsome : (table.get? "rows[0]".toList).isSome := by with_unfolding_all rfl
  have hrows : table.getAt? [.key "rows"]
      = some (.array [.object [("cells", .array [.null])], .array [.bool true]]) := by
    with_unfolding_all rfl
  have houtside : ¬ table.place (Path.keys "rows[0]".toList) <+: table.place ["rows"] := by
    decide +kernel
  obtain ⟨-, hremoved, htwice⟩ := delete_removes hordered "rows[0]".toList
  obtain ⟨hread, harrays⟩ := hremoved _ _ (by decide) hkeys hsome
  refine ⟨?_, harrays ["rows"] _ hrows houtside, htwice⟩
  rcases hread with ⟨members, hmembers, -⟩ | ⟨items, -, hnull⟩
  · cases hrows.symm.trans hmembers
  · exact hnull

end DeclaredApi.Json
