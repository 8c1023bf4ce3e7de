import DeclaredApi.Proofs.Path.Write

/-!
# `DeclaredApi.Proofs.Path.Delete`: what a deletion leaves of a written value

`without` is a deletion along keys, as `delete_of_plain` says of plain paths. It goes down to the
last key and leaves every other slot alone (`child?_without_of_ne`).

A value that has been written at `target` meets a later deletion of `names` in one of three ways,
and the places of the two in the data from before tell which:

* the places are apart, so the value stays (`getAt?_without_of_apart`);
* `target` lies strictly above, so the value loses what it has at the rest of the way
  (`getAt?_without_of_below`);
* `names` leads to `target` or to a parent of it, so the value is gone, or an emptied element of an
  array is in its place (`getAt?_without_of_above`).
-/

set_option autoImplicit false

namespace DeclaredApi.Json

open DeclaredApi.Path (Step)

variable {root data value written child held : Json} {step : Step} {steps : List Step}
  {key other : String} {rest others names target : List String} {path : List Char}

/-- The value without what is at the end of the keys, if it is there. -/
def without (root : Json) (names : List String) : Json :=
  (root.deleteAt? (names.map .key)).getD root

/-! ### Deleting along keys -/

/-- A step changes the same child when it is written as a key. -/
theorem modifyChild?_asKey (h : step.asPosition? = Path.position? step.asKey.toList) (root : Json)
    (f : Json → Option Json) :
    root.modifyChild? (.key step.asKey) f = root.modifyChild? step f := by
  have hposition : (Step.key step.asKey).asPosition? = step.asPosition? := h.symm
  cases root with
  | array items => simp only [modifyChild?, hposition]
  | _ => rfl

/-- A step deletes the same child when it is written as a key. -/
theorem deleteChild_asKey (h : step.asPosition? = Path.position? step.asKey.toList) (root : Json) :
    root.deleteChild (.key step.asKey) = root.deleteChild step := by
  have hposition : (Step.key step.asKey).asPosition? = step.asPosition? := h.symm
  cases root with
  | array items => simp only [deleteChild, hposition]
  | _ => rfl

/-- Steps delete the same value when they are written as keys. -/
theorem deleteAt?_map_asKey (root : Json)
    (h : ∀ step ∈ steps, step.asPosition? = Path.position? step.asKey.toList) :
    root.deleteAt? (steps.map fun step => .key step.asKey) = root.deleteAt? steps := by
  induction steps generalizing root with
  | nil => rfl
  | cons step rest ih =>
      obtain ⟨hstep, hrest⟩ := List.forall_mem_cons.1 h
      cases rest with
      | nil => exact congrArg some (deleteChild_asKey hstep root)
      | cons next rest =>
          show root.modifyChild? _ (deleteAt? ((next :: rest).map _)) = root.modifyChild? step _
          rw [modifyChild?_asKey hstep]
          exact congrArg (root.modifyChild? step ·) (funext fun child => ih child hrest)

/-- A deletion at a plain path is one along its keys. -/
theorem delete_of_plain (h : Path.Plain path) (root : Json) :
    root.delete path = root.without (Path.keys path) := by
  have htold : ∀ step ∈ Path.steps path, step.asPosition? = Path.position? step.asKey.toList :=
    fun _ hstep => Path.asPosition?_of_mem_steps hstep
  have hsteps := deleteAt?_map_asKey root htold
  rw [delete, h.isWildcard, without, Path.keys, List.map_map]
  exact congrArg (Option.getD · root) hsteps.symm

/-- Deleting a child leaves the other slots alone. -/
theorem child?_deleteChild_of_ne (h : root.slot key ≠ root.slot other) :
    (root.deleteChild (.key key)).child? (.key other) = root.child? (.key other) := by
  cases root with
  | object members =>
      have hne : key ≠ other := h
      show Dict.find? other (Dict.erase key members) = _
      rw [Dict.find?_erase, if_neg hne]
      rfl
  | array items =>
      cases hkey : Path.position? key.toList with
      | none => simp only [deleteChild, Step.asPosition?, hkey]
      | some position =>
          cases hother : Path.position? other.toList with
          | none => simp only [child?, deleteChild, Step.asPosition?, hkey, hother]; rfl
          | some position' =>
              have hne : position ≠ position' := by
                rintro rfl
                exact h (by rw [slot_array_of_position hkey, slot_array_of_position hother])
              simp only [deleteChild, Step.asPosition?, hkey]
              rw [child?_array_of_position hother, child?_array_of_position hother,
                List.getElem?_set_ne hne]
  | _ => rfl

/-- Where nothing is, nothing is deleted. -/
theorem deleteChild_eq_self (h : root.child? (.key key) = none) :
    root.deleteChild (.key key) = root := by
  cases root with
  | object members =>
      have hfind : Dict.find? key members = none := h
      exact congrArg Json.object (Dict.erase_eq_self hfind)
  | array items =>
      cases hposition : Path.position? key.toList with
      | none => simp only [deleteChild, Step.asPosition?, hposition]
      | some position =>
          rw [child?_array_of_position hposition] at h
          have hle : items.length ≤ position := List.getElem?_eq_none_iff.1 h
          simp only [deleteChild, Step.asPosition?, hposition, List.set_eq_of_length_le hle]
  | _ => rfl

/-- A member that is deleted is gone. -/
theorem child?_deleteChild_object (members : Dict Json) (key : String) :
    ((Json.object members).deleteChild (.key key)).child? (.key key) = none := by
  show Dict.find? key (Dict.erase key members) = none
  rw [Dict.find?_erase, if_pos rfl]

/-- An element that is deleted leaves null in its slot. -/
theorem child?_deleteChild_array {items : List Json}
    (hchild : (Json.array items).child? (.key key) = some child) :
    ((Json.array items).deleteChild (.key key)).child? (.key key) = some .null := by
  obtain ⟨position, hposition, hlt, -⟩ := exists_position_of_child? hchild
  simp only [deleteChild, Step.asPosition?, hposition]
  rw [child?_array_of_position hposition]
  exact List.getElem?_set_self hlt

/-- In the slot of what was deleted there is nothing, or null in an array. -/
theorem child?_deleteChild_self (root : Json) (key : String) :
    (root.deleteChild (.key key)).child? (.key key) = none ∨
      (root.deleteChild (.key key)).child? (.key key) = some .null := by
  cases root with
  | object members => exact Or.inl (child?_deleteChild_object members key)
  | array items =>
      cases hchild : (Json.array items).child? (.key key) with
      | none => exact Or.inl (by rw [deleteChild_eq_self hchild, hchild])
      | some child => exact Or.inr (child?_deleteChild_array hchild)
  | _ => exact Or.inl rfl

/-- Keys lead into the same slots after a child is deleted. -/
theorem slot_deleteChild (root : Json) (key other : String) :
    (root.deleteChild (.key key)).slot other = root.slot other := by
  cases root with
  | array items =>
      rw [deleteChild]
      split <;> rfl
  | _ => rfl

/-- To delete at one key is to delete a child. -/
theorem without_singleton (root : Json) (key : String) :
    root.without [key] = root.deleteChild (.key key) :=
  rfl

/-- A deletion further down is one in the child, if it is there. -/
theorem deleteAt?_cons (root : Json) (key : String) (hrest : rest ≠ []) :
    root.deleteAt? ((key :: rest).map .key)
      = (root.child? (.key key) >>= deleteAt? (rest.map .key)).map
          fun left => root.putChild key left := by
  cases rest with
  | nil => exact absurd rfl hrest
  | cons next rest => exact modifyChild?_eq root key (deleteAt? ((next :: rest).map .key))

/-- Below the slot of a key, a deletion further down is seen as one in the child. -/
theorem getAt?_without_cons (hrest : rest ≠ []) (hchild : root.child? (.key key) = some child)
    (hslot : root.slot key = root.slot other) :
    (root.without (key :: rest)).getAt? ((other :: others).map .key)
      = (child.without rest).getAt? (others.map .key) := by
  have hbelow : ∀ {root : Json}, root.child? (.key other) = some child →
      root.getAt? ((other :: others).map .key) = child.getAt? (others.map .key) := by
    intro root hother
    rw [List.map_cons, getAt?, hother]
    rfl
  rw [without, deleteAt?_cons root key hrest, hchild, Option.bind_eq_bind, Option.bind_some,
    without]
  cases child.deleteAt? (rest.map .key) with
  | none => exact hbelow ((child?_of_slot_eq hslot).symm.trans hchild)
  | some left =>
      -- A child that is put leaves the slots as they are, so the two keys still share one.
      have hput : (root.putChild key left).child? (.key other) = some left := by
        have hsame : (root.putChild key left).slot key = (root.putChild key left).slot other := by
          rwa [slot_putChild, slot_putChild]
        exact (child?_of_slot_eq hsame).symm.trans
          (child?_putChild_self (hasRoom_of_child? hchild))
      show (root.putChild key left).getAt? ((other :: others).map .key) = _
      rw [List.map_cons, getAt?, hput]
      rfl

/-- A deletion leaves all slots but that of its first key. -/
theorem child?_without_of_ne (h : root.slot key ≠ root.slot other) :
    (root.without (key :: rest)).child? (.key other) = root.child? (.key other) := by
  by_cases hrest : rest = []
  · subst hrest
    exact child?_deleteChild_of_ne h
  · rw [without, deleteAt?_cons root key hrest]
    cases root.child? (.key key) >>= deleteAt? (rest.map .key) with
    | none => rfl
    | some left => exact child?_putChild_of_ne h

/-! ### A deletion after a value was written -/

section Written

/-- Where both paths go on below one slot, they meet in its child as they meet in the data. -/
theorem exists_shared_child (hget : data.getAt? ((key :: rest).map .key) = some held)
    (hassign : assignAt value ((other :: others).map .key) data = (written, none))
    (hslot : data.slot key = data.slot other) (hrest : rest ≠ []) :
    ∃ child made, child.getAt? (rest.map .key) = some held ∧
      assignAt value (others.map .key) child = (made, none) ∧
      data.place (key :: rest) = data.slot other :: child.place rest ∧
      data.place (other :: others) = data.slot other :: child.place others ∧
      (written.without (key :: rest)).getAt? ((other :: others).map .key)
        = (made.without rest).getAt? (others.map .key) := by
  obtain ⟨child, hchild, hget⟩ := Option.bind_eq_some_iff.1 hget
  obtain ⟨hroom, made, hmade, rfl⟩ := assignAt_cons_iff.1 hassign
  have hother : data.child? (.key other) = some child := (child?_of_slot_eq hslot).symm.trans hchild
  have hcontainer : child.isContainer = true :=
    isContainer_of_getAt? (by simpa using hrest) hget
  rw [hother, parentOrNew_some hcontainer] at hmade
  have hwritten : (data.putChild other made).slot key = (data.putChild other made).slot other := by
    rwa [slot_putChild, slot_putChild]
  have hput : (data.putChild other made).child? (.key key) = some made :=
    (child?_of_slot_eq hwritten).trans (child?_putChild_self hroom)
  refine ⟨child, made, hget, hmade, ?_, place_cons_of_child? hother,
    getAt?_without_cons hrest hput hwritten⟩
  rw [place_cons_of_child? hchild, hslot]

variable (hget : data.getAt? (names.map .key) = some held)
  (hassign : assignAt value (target.map .key) data = (written, none))

include hget hassign

/-- A value that was written stays, where its place is apart from what is deleted. -/
theorem getAt?_without_of_apart (habove : ¬ data.place names <+: data.place target)
    (hbelow : ¬ data.place target <+: data.place names) :
    (written.without names).getAt? (target.map .key) = some value := by
  induction names generalizing data written target with
  | nil => exact absurd List.nil_prefix habove
  | cons key rest ih =>
      cases target with
      | nil => exact absurd List.nil_prefix hbelow
      | cons other others =>
          by_cases hslot : data.slot key = data.slot other
          · -- The paths part further down, in the child of this slot.
            have hrest : rest ≠ [] := by
              rintro rfl
              refine habove ?_
              rw [place, place, hslot]
              split <;> exact List.cons_prefix_cons.2 ⟨rfl, List.nil_prefix⟩
            obtain ⟨child, made, hget, hmade, hplace, hplace', hread⟩ :=
              exists_shared_child hget hassign hslot hrest
            rw [hplace, hplace', List.cons_prefix_cons] at habove hbelow
            rw [hread]
            exact ih hget hmade (fun h => habove ⟨rfl, h⟩) (fun h => hbelow ⟨rfl, h⟩)
          · -- They part here, and the deletion leaves the slot of the value alone.
            obtain ⟨hroom, made, hmade, rfl⟩ := assignAt_cons_iff.1 hassign
            have hwritten :
                (data.putChild other made).slot key ≠ (data.putChild other made).slot other := by
              rwa [slot_putChild, slot_putChild]
            rw [List.map_cons, getAt?, child?_without_of_ne hwritten, child?_putChild_self hroom]
            exact getAt?_assignAt hmade

/-- A value that was written loses what is deleted inside it. -/
theorem getAt?_without_of_below (hbelow : data.place target <+: data.place names)
    (hlength : target.length < names.length) :
    (written.without names).getAt? (target.map .key)
      = some (value.without (names.drop target.length)) := by
  induction target generalizing data written names with
  | nil =>
      cases hassign
      rfl
  | cons other others ih =>
      cases names with
      | nil => cases hlength
      | cons key rest =>
          have hlength : others.length < rest.length := Nat.lt_of_succ_lt_succ hlength
          have hrest : rest ≠ [] := List.length_pos_iff.1 (Nat.zero_lt_of_lt hlength)
          have hslot : data.slot key = data.slot other := by
            rw [place, place] at hbelow
            exact (List.cons_prefix_cons.1 hbelow).1.symm
          obtain ⟨child, made, hget, hmade, hplace, hplace', hread⟩ :=
            exists_shared_child hget hassign hslot hrest
          rw [hplace, hplace', List.cons_prefix_cons] at hbelow
          rw [hread]
          exact ih hget hmade hbelow.2 hlength

/-- A value that was written is gone, where its place or one above it is deleted. -/
theorem getAt?_without_of_above (habove : data.place names <+: data.place target)
    (hnames : names ≠ []) :
    (written.without names).getAt? (target.map .key) = none ∨
      (written.without names).getAt? (target.map .key) = some .null := by
  induction names generalizing data written target with
  | nil => exact absurd rfl hnames
  | cons key rest ih =>
      cases target with
      | nil =>
          rw [place, place] at habove
          exact absurd (List.prefix_nil.1 habove) (List.cons_ne_nil _ _)
      | cons other others =>
          have hslot : data.slot key = data.slot other := by
            rw [place, place] at habove
            exact (List.cons_prefix_cons.1 habove).1
          by_cases hrest : rest = []
          · -- The deletion ends here, at the slot that the value is in or below.
            subst hrest
            have hleft : (written.deleteChild (.key key)).slot key
                = (written.deleteChild (.key key)).slot other := by
              obtain ⟨-, made, -, rfl⟩ := assignAt_cons_iff.1 hassign
              rwa [slot_deleteChild, slot_deleteChild, slot_putChild, slot_putChild]
            rw [without_singleton, List.map_cons, getAt?, ← child?_of_slot_eq hleft]
            rcases child?_deleteChild_self written key with hnone | hnull
            · rw [hnone]
              exact Or.inl rfl
            · rw [hnull]
              cases others with
              | nil => exact Or.inr rfl
              | cons _ _ => exact Or.inl rfl
          · obtain ⟨child, made, hget, hmade, hplace, hplace', hread⟩ :=
              exists_shared_child hget hassign hslot hrest
            rw [hplace, hplace', List.cons_prefix_cons] at habove
            rw [hread]
            exact ih hget hmade habove.2 hrest

end Written

end DeclaredApi.Json
