import DeclaredApi.Path.Place
import DeclaredApi.Proofs.Dict

/-!
# `DeclaredApi.Proofs.Path.Leaves`: where the leaves of a value come from

A leaf is a value that is neither an array nor an object, and `Json.leaves` lists those inside a
value. `DrawnFrom source j` says that `j` holds no leaf but null and those of `source`: it may
hold fewer, in other places and more than once, but none that was made up.

Reading, writing, changing and deleting at a path keep this. What is read is a part of what it is
read from (`DrawnFrom.get?`), where a wildcard puts null for what is missing. What is written is
the value and what was there (`DrawnFrom.assign`), where an array may get a null to grow. What is
deleted leaves nothing or null behind (`DrawnFrom.delete`).
-/

set_option autoImplicit false

namespace DeclaredApi.Json

open DeclaredApi.Path (Step Route)

mutual

/-- The leaves of a value, in order. -/
def leaves : Json → List Json
  | .array items => leavesItems items
  | .object members => leavesMembers members
  | leaf => [leaf]

/-- The leaves of the items of an array. -/
def leavesItems : List Json → List Json
  | [] => []
  | item :: rest => item.leaves ++ leavesItems rest

/-- The leaves of the members of an object. -/
def leavesMembers : List (String × Json) → List Json
  | [] => []
  | (_, value) :: rest => value.leaves ++ leavesMembers rest

end

/-- A leaf of an array is a leaf of one of its items. -/
theorem mem_leavesItems_iff {items : List Json} {leaf : Json} :
    leaf ∈ leavesItems items ↔ ∃ item ∈ items, leaf ∈ item.leaves := by
  induction items with
  | nil => simp [leavesItems]
  | cons item rest ih => rw [leavesItems, List.mem_append, ih, List.exists_mem_cons_iff]

/-- A leaf of an object is a leaf of the value of one of its members. -/
theorem mem_leavesMembers_iff {members : List (String × Json)} {leaf : Json} :
    leaf ∈ leavesMembers members ↔ ∃ member ∈ members, leaf ∈ member.2.leaves := by
  induction members with
  | nil => simp [leavesMembers]
  | cons member rest ih => rw [leavesMembers, List.mem_append, ih, List.exists_mem_cons_iff]

/-- Every leaf of `j` is null or a leaf of `source`. -/
def DrawnFrom (source j : Json) : Prop :=
  j.leaves ⊆ .null :: source.leaves

/-- An array is drawn from a source if each of its items is. -/
theorem drawnFrom_array_iff {source : Json} {items : List Json} :
    DrawnFrom source (.array items) ↔ ∀ item ∈ items, DrawnFrom source item := by
  constructor
  · intro h item hmem leaf hleaf
    exact h (mem_leavesItems_iff.2 ⟨item, hmem, hleaf⟩)
  · intro h leaf hleaf
    obtain ⟨item, hmem, hleaf⟩ := mem_leavesItems_iff.1 hleaf
    exact h item hmem hleaf

/-- The first item and the others are drawn from the source each by itself. -/
theorem drawnFrom_cons_iff {source item : Json} {rest : List Json} :
    DrawnFrom source (.array (item :: rest)) ↔
      DrawnFrom source item ∧ DrawnFrom source (.array rest) := by
  rw [drawnFrom_array_iff, drawnFrom_array_iff, List.forall_mem_cons]

/-- An object is drawn from a source if the value of each of its members is. -/
theorem drawnFrom_object_iff {source : Json} {members : List (String × Json)} :
    DrawnFrom source (.object members) ↔ ∀ member ∈ members, DrawnFrom source member.2 := by
  constructor
  · intro h member hmem leaf hleaf
    exact h (mem_leavesMembers_iff.2 ⟨member, hmem, hleaf⟩)
  · intro h leaf hleaf
    obtain ⟨member, hmem, hleaf⟩ := mem_leavesMembers_iff.1 hleaf
    exact h member hmem hleaf

namespace DrawnFrom

variable {source root value j : Json} {steps : List Step}

/-- A value is drawn from itself. -/
theorem refl (j : Json) : DrawnFrom j j :=
  List.subset_cons_self _ _

/-- Null is drawn from every source. -/
theorem null (source : Json) : DrawnFrom source .null :=
  List.cons_subset_cons _ (List.nil_subset _)

/-! ### Members and items -/

/-- An object stays drawn from the source with a member that is. -/
theorem insert {members : Dict Json} (h : DrawnFrom source (.object members)) {key : String}
    (hvalue : DrawnFrom source value) :
    DrawnFrom source (.object (Dict.insert key value members)) := by
  refine drawnFrom_object_iff.2 fun member hmem => ?_
  rcases Dict.mem_insert_imp hmem with rfl | hmem
  · exact hvalue
  · exact drawnFrom_object_iff.1 h member hmem

/-- An object stays drawn from the source without one of its members. -/
theorem erase {members : Dict Json} (h : DrawnFrom source (.object members)) (key : String) :
    DrawnFrom source (.object (Dict.erase key members)) :=
  drawnFrom_object_iff.2 fun member hmem =>
    drawnFrom_object_iff.1 h member (List.mem_of_mem_filter hmem)

/-- An array stays drawn from the source with an element that is. -/
theorem set {items : List Json} (h : DrawnFrom source (.array items)) (position : Nat)
    (hvalue : DrawnFrom source value) : DrawnFrom source (.array (items.set position value)) := by
  refine drawnFrom_array_iff.2 fun item hmem => ?_
  rcases List.mem_or_eq_of_mem_set hmem with hmem | rfl
  · exact drawnFrom_array_iff.1 h item hmem
  · exact hvalue

/-- An array that grows gets a null. -/
theorem grown {items : List Json} (h : DrawnFrom source (.array items)) (position : Nat) :
    DrawnFrom source
      (.array (if position = items.length then items ++ [.null] else items)) := by
  split
  · refine drawnFrom_array_iff.2 fun item hmem => ?_
    rcases List.mem_append.1 hmem with hmem | hmem
    · exact drawnFrom_array_iff.1 h item hmem
    · obtain rfl := List.mem_singleton.1 hmem
      exact null source
  · exact h

/-! ### Reading -/

/-- The values of members are drawn from where the object is. -/
theorem find? {members : Dict Json} (h : DrawnFrom source (.object members)) {key : String}
    (hfind : Dict.find? key members = some value) : DrawnFrom source value :=
  drawnFrom_object_iff.1 h _ (Dict.mem_of_find? hfind)

/-- The elements are drawn from where the array is. -/
theorem getElem? {items : List Json} (h : DrawnFrom source (.array items)) {position : Nat}
    (hitem : items[position]? = some value) : DrawnFrom source value :=
  drawnFrom_array_iff.1 h _ (List.mem_of_getElem? hitem)

/-- What is one step down is drawn from where the value is. -/
theorem child? (h : DrawnFrom source root) {step : Step} (hchild : root.child? step = some j) :
    DrawnFrom source j := by
  cases root with
  | object members => exact h.find? hchild
  | array items =>
      obtain ⟨position, -, hitem⟩ := Option.bind_eq_some_iff.1 hchild
      exact h.getElem? hitem
  | _ => cases hchild

/-- What is any number of steps down is drawn from there too. -/
theorem getAt? (h : DrawnFrom source root) (hget : root.getAt? steps = some j) :
    DrawnFrom source j := by
  induction steps generalizing root with
  | nil =>
      cases hget
      exact h
  | cons step rest ih =>
      obtain ⟨child, hchild, hget⟩ := Option.bind_eq_some_iff.1 hget
      exact ih (h.child? hchild) hget

/-- A wildcard collects parts of the elements, and null where there is none. -/
theorem follow? {route : Route} (h : DrawnFrom source root)
    (hfollow : root.follow? route = some j) : DrawnFrom source j := by
  induction route generalizing root j with
  | place steps => exact h.getAt? hfollow
  | each steps rest ih =>
      rw [Json.follow?] at hfollow
      split at hfollow
      · next items hitems =>
          cases hfollow
          refine drawnFrom_array_iff.2 fun projected hmem => ?_
          obtain ⟨item, hitem, rfl⟩ := List.mem_map.1 hmem
          have hdrawn := drawnFrom_array_iff.1 (h.getAt? hitems) item hitem
          cases hrest : item.follow? rest with
          | none => exact null source
          | some found => exact ih hdrawn hrest
      · cases hfollow

/-- What a path leads to is drawn from there, also over wildcards, where null stands for what is
not found. -/
theorem get? {path : List Char} (h : DrawnFrom source root) (hget : root.get? path = some j) :
    DrawnFrom source j :=
  h.follow? hget

/-! ### Writing -/

/-- The place of a child holds what the child held. -/
theorem parentOrNew {child : Option Json} (h : ∀ j, child = some j → DrawnFrom source j) :
    DrawnFrom source (Json.parentOrNew child) := by
  have hnew : DrawnFrom source (.object []) := List.nil_subset _
  unfold Json.parentOrNew
  split
  · exact hnew
  · exact hnew
  · exact h _ rfl

/-- Writing adds no leaf but those of the value that is written, whether it succeeds or not. -/
theorem assignAt (h : DrawnFrom source root) (hvalue : DrawnFrom source value) :
    DrawnFrom source (Json.assignAt value steps root).1 := by
  induction steps generalizing root with
  | nil => exact hvalue
  | cons step rest ih =>
      cases root with
      | object members =>
          have hparent : DrawnFrom source (Json.parentOrNew (Dict.find? step.asKey members)) :=
            parentOrNew fun j hfind => h.find? hfind
          simp only [Json.assignAt]
          split
          · exact h.insert hvalue
          · split
            · exact h.insert (ih hparent)
            · exact h
      | array items =>
          simp only [Json.assignAt]
          split
          · exact h
          · next position _ =>
              have hparent : DrawnFrom source (Json.parentOrNew items[position]?) :=
                parentOrNew fun j hitem => h.getElem? hitem
              split
              · exact h
              · -- The array has grown, whether the value is put here or further down.
                split
                · exact (h.grown position).set position hvalue
                · split
                  · exact (h.grown position).set position (ih hparent)
                  · exact h.grown position
      | _ => exact h

/-- Nor does writing at a path. -/
theorem assigned {path : List Char} (h : DrawnFrom source root)
    (hvalue : DrawnFrom source value) (hassigned : root.assigned path value = .ok j) :
    DrawnFrom source j := by
  have hassign : DrawnFrom source (root.assign path value).1 := by
    unfold Json.assign
    split
    · exact h
    · exact h.assignAt hvalue
  unfold Json.assigned at hassigned
  split at hassigned
  · next heq =>
      cases hassigned
      rwa [heq] at hassign
  · cases hassigned

/-! ### Changing what is there -/

/-- A change of a child that adds no leaf adds none to the value. -/
theorem modifyChild? {step : Step} {f : Json → Option Json} (h : DrawnFrom source root)
    (hf : ∀ child changed, DrawnFrom source child → f child = some changed →
      DrawnFrom source changed)
    (hmodify : root.modifyChild? step f = some j) : DrawnFrom source j := by
  cases root with
  | object members =>
      obtain ⟨child, hfind, hmodify⟩ := Option.bind_eq_some_iff.1 hmodify
      obtain ⟨changed, hchanged, hmodify⟩ := Option.bind_eq_some_iff.1 hmodify
      cases hmodify
      exact h.insert (hf child changed (h.find? hfind) hchanged)
  | array items =>
      obtain ⟨position, -, hmodify⟩ := Option.bind_eq_some_iff.1 hmodify
      obtain ⟨child, hitem, hmodify⟩ := Option.bind_eq_some_iff.1 hmodify
      obtain ⟨changed, hchanged, hmodify⟩ := Option.bind_eq_some_iff.1 hmodify
      cases hmodify
      exact h.set position (hf child changed (h.getElem? hitem) hchanged)
  | _ => cases hmodify

/-- A change further down that adds no leaf adds none to the value. -/
theorem modifyAt? {f : Json → Option Json} (h : DrawnFrom source root)
    (hf : ∀ child changed, DrawnFrom source child → f child = some changed →
      DrawnFrom source changed)
    (hmodify : root.modifyAt? f steps = some j) : DrawnFrom source j := by
  induction steps generalizing root j with
  | nil => exact hf root j h hmodify
  | cons step rest ih => exact h.modifyChild? (fun _ _ hchild => ih hchild) hmodify

/-- Deleting one step down adds no leaf but null. -/
theorem deleteChild (h : DrawnFrom source root) (step : Step) :
    DrawnFrom source (root.deleteChild step) := by
  cases root with
  | object members => exact h.erase step.asKey
  | array items =>
      rw [Json.deleteChild]
      split
      · next position _ => exact h.set position (null source)
      · exact h
  | _ => exact h

/-- Deleting further down adds no leaf but null. -/
theorem deleteAt? (h : DrawnFrom source root) (hdelete : root.deleteAt? steps = some j) :
    DrawnFrom source j := by
  induction steps generalizing root j with
  | nil => cases hdelete
  | cons step rest ih =>
      cases rest with
      | nil =>
          cases hdelete
          exact h.deleteChild step
      | cons next rest => exact h.modifyChild? (fun _ _ hchild => ih hchild) hdelete

/-- Deleting at a path adds no leaf but null. -/
theorem delete (h : DrawnFrom source root) (path : List Char) :
    DrawnFrom source (root.delete path) := by
  unfold Json.delete
  split
  · exact h
  · cases hdelete : root.deleteAt? (Path.steps path) with
    | none => exact h
    | some left => exact h.deleteAt? hdelete

end DrawnFrom
end DeclaredApi.Json
