import DeclaredApi.Path.Place
import DeclaredApi.Proofs.Dict
import DeclaredApi.Proofs.Json.Value
import DeclaredApi.Proofs.Path.Basic

/-!
# `DeclaredApi.Proofs.Path.Place`: reading and writing along keys

What is written goes down through the places of the children (`assignAt_object`,
`assignAt_array`), and writing what is there changes nothing (`assignAt_eq_self`).

A step of a path does to a value what its key does, in an array as in an object. So a plain path
is read along its keys (`get?_of_plain`) and written along them (`assign_of_plain`), and it
means the same in two values of which one has an array where the other has an object.
-/

set_option autoImplicit false

namespace DeclaredApi.Json

open DeclaredApi.Path (Step)

variable {root value child : Json} {step : Step} {rest steps : List Step} {path : List Char}

/-! ### Children -/

/-- What has a child is an array or an object. -/
theorem isContainer_of_child? (h : root.child? step = some child) : root.isContainer = true := by
  cases root <;> first | rfl | cases h

/-- What has something below it is an array or an object. -/
theorem isContainer_of_getAt? (hrest : rest ≠ []) (h : root.getAt? rest = some value) :
    root.isContainer = true := by
  cases rest with
  | nil => exact absurd rfl hrest
  | cons step rest =>
      obtain ⟨child, hchild, -⟩ := Option.bind_eq_some_iff.1 h
      exact isContainer_of_child? hchild

/-- What leads to an array or an object is one. -/
theorem isContainer_of_getAt?_container (hget : root.getAt? steps = some value)
    (hvalue : value.isContainer = true) : root.isContainer = true := by
  by_cases hsteps : steps = []
  · subst hsteps
    cases hget
    exact hvalue
  · exact isContainer_of_getAt? hsteps hget

/-- A way down goes on from the end of its first part. -/
theorem getAt?_append (root : Json) (steps rest : List Step) :
    root.getAt? (steps ++ rest) = root.getAt? steps >>= getAt? rest := by
  induction steps generalizing root with
  | nil => rfl
  | cons step steps ih =>
      rw [List.cons_append, getAt?, getAt?]
      cases root.child? step with
      | none => rfl
      | some child => exact ih child

/-- An array or an object keeps its place. -/
theorem parentOrNew_some (h : child.isContainer = true) : parentOrNew (some child) = child := by
  cases child <;> first | rfl | cases h

/-- What is one step down in a sorted value is sorted. -/
theorem Ordered.child? (h : root.Ordered) (hchild : root.child? step = some child) :
    child.Ordered := by
  cases root with
  | object members =>
      rw [Ordered] at h
      exact (orderedMembers_iff members).1 h.2 _ (Dict.mem_of_find? hchild)
  | array items =>
      obtain ⟨position, -, hitem⟩ := Option.bind_eq_some_iff.1 hchild
      rw [Ordered] at h
      exact (orderedItems_iff items).1 h _ (List.mem_of_getElem? hitem)
  | _ => cases hchild

/-! ### Writing, one step down -/

/-- A value is put below a member of an object, or below the object made for it. -/
theorem assignAt_object {members : Dict Json} {written : Json} {fault : Option PathFault}
    (hparent : rest ≠ [] → (parentOrNew (Dict.find? step.asKey members)).isContainer = true)
    (hassign : assignAt value rest (parentOrNew (Dict.find? step.asKey members))
      = (written, fault)) :
    assignAt value (step :: rest) (.object members)
      = (.object (Dict.insert step.asKey written members), fault) := by
  cases rest with
  | nil =>
      cases hassign
      rfl
  | cons next rest =>
      have hcontainer := hparent (List.cons_ne_nil _ _)
      rw [assignAt]
      simp only [List.isEmpty_cons, Bool.false_eq_true, if_false, hcontainer, if_true, hassign]

/-- A value is put below an item of an array. -/
theorem assignAt_array {items : List Json} {position : Nat} {written : Json}
    {fault : Option PathFault} (hposition : step.asPosition? = some position)
    (hitem : items[position]? = some child)
    (hparent : rest ≠ [] → (parentOrNew (some child)).isContainer = true)
    (hassign : assignAt value rest (parentOrNew (some child)) = (written, fault)) :
    assignAt value (step :: rest) (.array items)
      = (.array (items.set position written), fault) := by
  have hlt : position < items.length := (List.getElem?_eq_some_iff.1 hitem).1
  have hinside : ¬ items.length < position := by omega
  have hgrown : ¬ position = items.length := by omega
  rw [assignAt]
  simp only [hposition, hinside, hgrown, if_false, hitem]
  cases rest with
  | nil =>
      cases hassign
      rfl
  | cons next rest =>
      have hcontainer := hparent (List.cons_ne_nil _ _)
      simp only [List.isEmpty_cons, Bool.false_eq_true, if_false, hcontainer, if_true, hassign]

/-- What is left of a value whose child comes out as it was. -/
theorem assignAt_cons_eq_self {fault : Option PathFault} (h : root.Ordered)
    (hchild : root.child? step = some child)
    (hparent : rest ≠ [] → (parentOrNew (some child)).isContainer = true)
    (hself : assignAt value rest (parentOrNew (some child)) = (child, fault)) :
    assignAt value (step :: rest) root = (root, fault) := by
  cases root with
  | object members =>
      have hfind : Dict.find? step.asKey members = some child := hchild
      rw [Ordered] at h
      rw [assignAt_object (hfind ▸ hparent) (hfind ▸ hself), Dict.insert_eq_self h.1 hfind]
  | array items =>
      obtain ⟨position, hposition, hitem⟩ := Option.bind_eq_some_iff.1 hchild
      obtain ⟨hlt, rfl⟩ := List.getElem?_eq_some_iff.1 hitem
      rw [assignAt_array hposition hitem hparent hself, List.set_getElem_self]
  | _ => cases hchild

/-- Writing what is there changes nothing. -/
theorem assignAt_eq_self (h : root.Ordered) (hget : root.getAt? steps = some value) :
    assignAt value steps root = (root, none) := by
  induction steps generalizing root with
  | nil =>
      cases hget
      rfl
  | cons step rest ih =>
      obtain ⟨child, hchild, hget⟩ := Option.bind_eq_some_iff.1 hget
      by_cases hrest : rest = []
      · subst hrest
        cases hget
        exact assignAt_cons_eq_self h hchild (fun hne => absurd rfl hne) rfl
      · have hcontainer := isContainer_of_getAt? hrest hget
        refine assignAt_cons_eq_self h hchild (fun _ => ?_) ?_
        · rwa [parentOrNew_some hcontainer]
        · rw [parentOrNew_some hcontainer]
          exact ih (h.child? hchild) hget

/-! ### Paths as their keys -/

/-- A step leads to the same child when it is written as a key. -/
theorem child?_asKey (h : step.asPosition? = Path.position? step.asKey.toList) (root : Json) :
    root.child? (.key step.asKey) = root.child? step := by
  cases root with
  | array items =>
      show Path.position? step.asKey.toList >>= (items[·]?) = step.asPosition? >>= (items[·]?)
      rw [h]
  | _ => rfl

/-- Steps lead to the same value when they are written as keys. -/
theorem getAt?_map_asKey (root : Json)
    (h : ∀ step ∈ steps, step.asPosition? = Path.position? step.asKey.toList) :
    root.getAt? (steps.map fun step => .key step.asKey) = root.getAt? steps := by
  induction steps generalizing root with
  | nil => rfl
  | cons step rest ih =>
      obtain ⟨hstep, hrest⟩ := List.forall_mem_cons.1 h
      rw [List.map_cons, getAt?, getAt?, child?_asKey hstep]
      exact congrArg _ (funext fun child => ih child hrest)

/-- Steps are written at alike when they are written as keys. -/
theorem assignAt_map_asKey (root : Json)
    (h : ∀ step ∈ steps, step.asPosition? = Path.position? step.asKey.toList) :
    assignAt value (steps.map fun step => .key step.asKey) root = assignAt value steps root := by
  induction steps generalizing root with
  | nil => rfl
  | cons step rest ih =>
      obtain ⟨hstep, hrest⟩ := List.forall_mem_cons.1 h
      have hkey : (Step.key step.asKey).asKey = step.asKey := rfl
      have hposition : (Step.key step.asKey).asPosition? = step.asPosition? := hstep.symm
      cases root <;> simp only [List.map_cons, assignAt, hkey, hposition, List.isEmpty_map,
        fun parent => ih parent hrest]

/-- A plain path is read along its keys. -/
theorem get?_of_plain (h : Path.Plain path) (root : Json) :
    root.get? path = root.getAt? ((Path.keys path).map .key) := by
  rw [get?, Path.route_of_plain h, follow?, Path.keys, List.map_map]
  exact (getAt?_map_asKey root fun _ => Path.asPosition?_of_mem_steps).symm

/-- A plain path is written along its keys. -/
theorem assign_of_plain (h : Path.Plain path) (root value : Json) :
    root.assign path value
      = ((assignAt value ((Path.keys path).map .key) root).1,
          (assignAt value ((Path.keys path).map .key) root).2.map
            (PathError.mk (String.ofList path))) := by
  have hsteps : assignAt value ((Path.keys path).map .key) root
      = assignAt value (Path.steps path) root := by
    rw [Path.keys, List.map_map]
    exact assignAt_map_asKey root fun _ => Path.asPosition?_of_mem_steps
  rw [assign, h.isWildcard, hsteps]
  rfl

/-- A path with a marker is refused before anything is written. -/
theorem assign_of_not_plain (h : ¬ Path.Plain path) (root value : Json) :
    root.assign path value = (root, some ⟨String.ofList path, .wildcard⟩) := by
  rw [assign, Path.isWildcard_of_not_plain h]
  rfl

/-- A path without a marker is written at its keys. -/
theorem assign_eq_iff_of_plain (h : Path.Plain path) {written : Json} :
    root.assign path value = (written, none) ↔
      assignAt value ((Path.keys path).map .key) root = (written, none) := by
  rw [assign_of_plain h, Prod.mk.injEq, Option.map_eq_none_iff, ← Prod.mk.injEq]

/-- So it is where only the success matters. -/
theorem assigned_of_plain (h : Path.Plain path) {written : Json}
    (hassign : assignAt value ((Path.keys path).map .key) root = (written, none)) :
    root.assigned path value = .ok written := by
  rw [assigned, (assign_eq_iff_of_plain h).2 hassign]

end DeclaredApi.Json
