import DeclaredApi.Proofs.Path.Slot

/-!
# `DeclaredApi.Proofs.Path.Write`: what is written is read

An assignment that succeeds can be read back (`getAt?_assignAt`). What it leaves as it was is said
of the places that are reached through objects alone (`OpenTo`): such a place stays one when
something is written at any path that does not end above it (`OpenTo.assignAt`), and what is there
stays when the path ends neither above nor below it (`OpenTo.getAt?_assignAt`). Through an array
this could not be said of keys, for there several keys lead to one child.

An assignment leaves the members of all objects in order (`Ordered.assignAt`).
`assigned_eq_ok_iff` turns an assignment at a path into one along its keys.
-/

set_option autoImplicit false

namespace DeclaredApi.Json

open DeclaredApi.Path (Step)

variable {root value written : Json} {keys names : List String} {path : List Char}

/-- What is written is read. -/
theorem getAt?_assignAt (h : assignAt value (names.map .key) root = (written, none)) :
    written.getAt? (names.map .key) = some value := by
  induction names generalizing root written with
  | nil =>
      cases h
      rfl
  | cons key rest ih =>
      obtain ⟨hroom, child, hchild, rfl⟩ := assignAt_cons_iff.1 h
      rw [List.map_cons, getAt?, child?_putChild_self hroom]
      exact ih hchild

/-- In an object without members there is room at every path. -/
theorem exists_assignAt_empty (value : Json) (names : List String) :
    ∃ written, assignAt value (names.map .key) (.object []) = (written, none) := by
  induction names with
  | nil => exact ⟨value, rfl⟩
  | cons key rest ih =>
      obtain ⟨child, hchild⟩ := ih
      exact ⟨_, assignAt_cons_iff.2 ⟨trivial, child, hchild, rfl⟩⟩

/-- An assignment succeeds exactly along the keys of a plain path. -/
theorem assigned_eq_ok_iff :
    root.assigned path value = .ok written ↔
      Path.Plain path ∧ assignAt value ((Path.keys path).map .key) root = (written, none) := by
  constructor
  · intro h
    rw [assigned] at h
    split at h
    · next left hassign =>
        cases h
        by_cases hplain : Path.Plain path
        · exact ⟨hplain, (assign_eq_iff_of_plain hplain).1 hassign⟩
        · rw [assign_of_not_plain hplain] at hassign
          cases hassign
    · cases h
  · rintro ⟨hplain, hassign⟩
    exact assigned_of_plain hplain hassign

/-! ### Members in order -/

/-- An empty object is sorted. -/
theorem ordered_empty : (Json.object []).Ordered :=
  ⟨Dict.sorted_nil, trivial⟩

/-- An array is sorted if each of its items is. -/
theorem ordered_array_iff {items : List Json} :
    (Json.array items).Ordered ↔ ∀ item ∈ items, item.Ordered := by
  rw [Ordered, orderedItems_iff]

/-- What is any number of steps down in a sorted value is sorted. -/
theorem Ordered.getAt? {steps : List Step} (h : root.Ordered)
    (hget : root.getAt? steps = some value) : value.Ordered := by
  induction steps generalizing root with
  | nil =>
      cases hget
      exact h
  | cons step rest ih =>
      obtain ⟨child, hchild, hget⟩ := Option.bind_eq_some_iff.1 hget
      exact ih (h.child? hchild) hget

/-- What a way leads to in a sorted value is sorted, also over wildcards. -/
theorem Ordered.follow? {route : Path.Route} (h : root.Ordered)
    (hfollow : root.follow? route = some value) : value.Ordered := by
  induction route generalizing root value with
  | place steps => exact h.getAt? hfollow
  | each steps rest ih =>
      rw [Json.follow?] at hfollow
      split at hfollow
      · next items hitems =>
          cases hfollow
          refine ordered_array_iff.2 fun found hfound => ?_
          obtain ⟨item, hmem, rfl⟩ := List.mem_map.1 hfound
          have hitem := ordered_array_iff.1 (h.getAt? hitems) item hmem
          cases hrest : item.follow? rest with
          | none => trivial
          | some inner => exact ih hitem hrest
      · cases hfollow

/-- A parent that is made is sorted. -/
theorem Ordered.parentOrNew {made : Option Json} (h : ∀ child, made = some child → child.Ordered) :
    (Json.parentOrNew made).Ordered := by
  unfold Json.parentOrNew
  split
  · exact ordered_empty
  · exact ordered_empty
  · exact h _ rfl

/-- A sorted value stays sorted when a sorted child is put. -/
theorem Ordered.putChild {key : String} {child : Json} (h : root.Ordered) (hchild : child.Ordered) :
    (root.putChild key child).Ordered := by
  cases root with
  | object members =>
      rw [Ordered, orderedMembers_iff] at h
      rw [putChild_object, Ordered, orderedMembers_iff]
      refine ⟨Dict.sorted_insert h.1 key child, fun member hmem => ?_⟩
      rcases Dict.mem_insert_imp hmem with rfl | hmem
      · exact hchild
      · exact h.2 member hmem
  | array items =>
      have hitems := ordered_array_iff.1 h
      cases hposition : Path.position? key.toList with
      | none =>
          rw [putChild_array_of_none hposition]
          exact h
      | some position =>
          rw [putChild_array_of_position hposition]
          refine ordered_array_iff.2 fun item hmem => ?_
          rcases List.mem_or_eq_of_mem_set hmem with hmem | rfl
          · -- A position one behind the end is filled with null first.
            split at hmem
            · rcases List.mem_append.1 hmem with hmem | hmem
              · exact hitems item hmem
              · cases List.mem_singleton.1 hmem
                trivial
            · exact hitems item hmem
          · exact hchild
  | _ => exact h

/-- Writing leaves the members of all objects in order. -/
theorem Ordered.assignAt (h : root.Ordered) (hvalue : value.Ordered)
    (hassign : Json.assignAt value (names.map .key) root = (written, none)) : written.Ordered := by
  induction names generalizing root written with
  | nil =>
      cases hassign
      exact hvalue
  | cons key rest ih =>
      obtain ⟨-, child, hchild, rfl⟩ := assignAt_cons_iff.1 hassign
      exact h.putChild (ih (Ordered.parentOrNew fun _ hmade => h.child? hmade) hchild)

/-! ### Places below objects -/

/-- As far as the value goes, the keys lead through objects alone. -/
def OpenTo : List String → Json → Prop
  | [], _ => True
  | key :: rest, .object members => ∀ child, Dict.find? key members = some child → OpenTo rest child
  | _ :: _, _ => False

/-- In an empty object nothing is in the way. -/
theorem openTo_empty (names : List String) : OpenTo names (.object []) := by
  cases names with
  | nil => trivial
  | cons key rest =>
      intro child h
      cases h

/-- In a parent that is made nothing is in the way. -/
theorem OpenTo.parentOrNew {made : Option Json}
    (h : ∀ child, made = some child → OpenTo names child) :
    OpenTo names (Json.parentOrNew made) := by
  unfold Json.parentOrNew
  split
  · exact openTo_empty names
  · exact openTo_empty names
  · exact h _ rfl

/-- Writing leaves a place below objects, if it does not end strictly above it. -/
theorem OpenTo.assignAt (h : OpenTo names root)
    (hassign : Json.assignAt value (keys.map .key) root = (written, none))
    (habove : keys <+: names → keys = names) : OpenTo names written := by
  induction names generalizing keys root written with
  | nil => trivial
  | cons name rest ih =>
      cases keys with
      | nil => exact absurd (habove List.nil_prefix) (List.cons_ne_nil _ _).symm
      | cons key keys =>
          cases root with
          | object members =>
              obtain ⟨-, child, hchild, rfl⟩ := assignAt_cons_iff.1 hassign
              intro next hnext
              rw [Dict.find?_insert] at hnext
              split at hnext
              · next heq =>
                  -- In this child the path ends above the place only if it does so here.
                  subst heq
                  cases hnext
                  have hrest : keys <+: rest → keys = rest := fun hprefix =>
                    (List.cons.inj (habove (List.cons_prefix_cons.2 ⟨rfl, hprefix⟩))).2
                  exact ih (OpenTo.parentOrNew fun child hfind => h child hfind) hchild hrest
              · exact h next hnext
          | _ => cases h

/-- Writing elsewhere leaves what is at a place below objects. -/
theorem OpenTo.getAt?_assignAt (h : OpenTo names root)
    (hassign : Json.assignAt value (keys.map .key) root = (written, none))
    (habove : ¬ keys <+: names) (hbelow : ¬ names <+: keys) :
    written.getAt? (names.map .key) = root.getAt? (names.map .key) := by
  induction names generalizing keys root written with
  | nil => exact absurd List.nil_prefix hbelow
  | cons name rest ih =>
      cases keys with
      | nil => exact absurd List.nil_prefix habove
      | cons key keys =>
          cases root with
          | object members =>
              obtain ⟨-, child, hchild, rfl⟩ := assignAt_cons_iff.1 hassign
              show (Dict.find? name (Dict.insert key child members)).bind _
                = (Dict.find? name members).bind _
              rw [Dict.find?_insert]
              split
              · next heq =>
                  subst heq
                  have habove : ¬ keys <+: rest := fun hprefix =>
                    habove (List.cons_prefix_cons.2 ⟨rfl, hprefix⟩)
                  have hbelow : ¬ rest <+: keys := fun hprefix =>
                    hbelow (List.cons_prefix_cons.2 ⟨rfl, hprefix⟩)
                  -- What is read lies below the shared key, so a parent made there is not seen.
                  have hrest : rest.map Step.key ≠ [] := by
                    intro hnil
                    rw [List.map_eq_nil_iff] at hnil
                    exact hbelow (hnil ▸ List.nil_prefix)
                  have hsame :=
                    ih (OpenTo.parentOrNew fun child hfind => h child hfind) hchild habove hbelow
                  exact hsame.trans (getAt?_parentOrNew _ hrest)
              · rfl
          | _ => cases h

end DeclaredApi.Json
