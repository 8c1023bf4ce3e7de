import DeclaredApi.Proofs.Path.Place

/-!
# `DeclaredApi.Proofs.Path.Slot`: one step down, in an array as in an object

A key leads into a slot: in an object the slot is the key itself, and in an array it is the
position, however the key spells it (`slot`). Keys with one slot lead to one child
(`child?_of_slot_eq`). The own steps of a value are those to its children, by a key in an object and
by a position in an array (`Own`), and a key stands for one of them at most (`stepOf`). By their
children at these steps, values of one kind are told (`eq_of_child?_eq`).

`putChild` puts a child into a slot, where there is room for it (`HasRoom`): in an object there
always is, and in an array up to one past its end. Then the child is read there
(`child?_putChild_self`) and all other slots are as before (`child?_putChild_of_ne`). An array grows
by one slot at most, and only at its end (`exists_putChild_array`). To put back the child that is
there changes nothing (`putChild_eq_self`). Every walker that changes a value goes through it:
`modifyChild?_eq` says so of a change one step down, and `assignAt_cons_iff` of an assignment, with
all that must hold for it to succeed.

The place of a path in a value (`place`) is the list of its slots, and of its keys from where the
value ends. Paths of one place are two spellings of one location.
-/

set_option autoImplicit false

namespace DeclaredApi.Json

open DeclaredApi.Path (Step position? position?_toDigits lt_of_position?)

variable {root root' root'' value child written : Json} {key other : String}
  {keys : List String} {step : Step}

/-! ### Slots -/

/-- The slot that a key leads into. -/
def slot (key : String) : Json → String
  | .array _ =>
    match position? key.toList with
    | some position => String.ofList (Nat.toDigits 10 position)
    | none => key
  | _ => key

/-- There is a slot for the key, or there will be one when a child is put there. -/
def HasRoom (key : String) : Json → Prop
  | .object _ => True
  | .array items => ∃ position, position? key.toList = some position ∧ position ≤ items.length
  | _ => False

/-- The value with `child` in the slot of the key, at the end of an array a new one. -/
def putChild (root : Json) (key : String) (child : Json) : Json :=
  match root with
  | .object members => .object (Dict.insert key child members)
  | .array items =>
    match position? key.toList with
    | some position =>
      .array ((if position = items.length then items ++ [.null] else items).set position child)
    | none => .array items
  | leaf => leaf

/-- In an object a child is put under its key. -/
theorem putChild_object (members : Dict Json) (key : String) (child : Json) :
    (Json.object members).putChild key child = .object (Dict.insert key child members) :=
  rfl

/-- In an array a child is put at its position, at the end in a new slot. -/
theorem putChild_array_of_position {items : List Json} {position : Nat}
    (h : position? key.toList = some position) :
    (Json.array items).putChild key child
      = .array ((if position = items.length then items ++ [.null] else items).set position
          child) := by
  simp only [putChild, h]

/-- A key that is no position puts nothing into an array. -/
theorem putChild_array_of_none {items : List Json} (h : position? key.toList = none) :
    (Json.array items).putChild key child = .array items := by
  simp only [putChild, h]

/-- In an array all keys of one position lead into one slot. -/
theorem slot_array_of_position {items : List Json} {position : Nat}
    (h : position? key.toList = some position) :
    (Json.array items).slot key = String.ofList (Nat.toDigits 10 position) := by
  simp only [slot, h]

/-- In an array the child under a key is the element at its position. -/
theorem child?_array_of_position {items : List Json} {position : Nat}
    (h : position? key.toList = some position) :
    (Json.array items).child? (.key key) = items[position]? := by
  show position? key.toList >>= (items[·]?) = _
  rw [h]
  rfl

/-- A child is known by its slot. -/
theorem child?_slot (root : Json) (key : String) :
    root.child? (.key (root.slot key)) = root.child? (.key key) := by
  cases root with
  | array items =>
      cases hposition : position? key.toList with
      | none => simp only [slot, hposition]
      | some position =>
          have hdigits := position?_toDigits (lt_of_position? hposition)
          rw [slot_array_of_position hposition, child?_array_of_position hposition]
          exact child?_array_of_position (by rwa [String.toList_ofList])
  | _ => rfl

/-- Keys that lead into one slot lead to one child. -/
theorem child?_of_slot_eq (h : root.slot key = root.slot other) :
    root.child? (.key key) = root.child? (.key other) := by
  rw [← child?_slot root key, h, child?_slot]

/-! ### The own steps of a value -/

/-- Both are objects, or both are arrays. -/
def SameKind : Json → Json → Prop
  | .object _, .object _ => True
  | .array _, .array _ => True
  | _, _ => False

/-- The step is one into a value of this kind: to a key of an object, or to a position of an
array. -/
def Own : Json → Step → Prop
  | .object _, .key _ => True
  | .array _, .index _ => True
  | _, _ => False

/-- The own step that a key stands for. -/
def stepOf (key : String) : Json → Option Step
  | .object _ => some (.key key)
  | .array _ => (position? key.toList).map .index
  | _ => none

/-- A container is of its own kind. -/
theorem SameKind.refl (h : root.isContainer = true) : SameKind root root := by
  cases root <;> trivial

/-- Being of one kind is symmetric. -/
theorem SameKind.symm (h : SameKind root root') : SameKind root' root := by
  cases root <;> cases root' <;> trivial

/-- Being of one kind is transitive. -/
theorem SameKind.trans (h : SameKind root root') (h' : SameKind root' root'') :
    SameKind root root'' := by
  cases root <;> cases root' <;> cases root'' <;> trivial

/-- In values of one kind a key stands for one step. -/
theorem SameKind.stepOf_eq (h : SameKind root root') (key : String) :
    root.stepOf key = root'.stepOf key := by
  cases root <;> cases root' <;> first | rfl | cases h

/-- Values of one kind have the same own steps. -/
theorem SameKind.own (h : SameKind root root') (howned : root.Own step) : root'.Own step := by
  cases root <;> cases root' <;> cases step <;> trivial

/-- A key leads where its own step does. -/
theorem child?_of_stepOf (h : root.stepOf key = some step) :
    root.child? (.key key) = root.child? step := by
  cases root with
  | object members =>
      cases h
      rfl
  | array items =>
      obtain ⟨position, hposition, rfl⟩ := Option.map_eq_some_iff.1 h
      exact child?_array_of_position hposition
  | _ => cases h

/-- The step that a key stands for is one into the value. -/
theorem own_of_stepOf (h : root.stepOf key = some step) : root.Own step := by
  cases root with
  | object members =>
      cases h
      trivial
  | array items =>
      obtain ⟨position, -, rfl⟩ := Option.map_eq_some_iff.1 h
      trivial
  | _ => cases h

/-- Only a container has steps of its own. -/
theorem Own.isContainer (h : root.Own step) : root.isContainer = true := by
  cases root <;> first | rfl | cases h

/-- Keys with one own step have one slot. -/
theorem slot_eq_of_stepOf_eq (h : root.stepOf key = some step)
    (h' : root.stepOf other = some step) : root.slot key = root.slot other := by
  cases root with
  | object members =>
      cases h
      cases h'
      rfl
  | array items =>
      obtain ⟨position, hposition, rfl⟩ := Option.map_eq_some_iff.1 h
      obtain ⟨position', hposition', heq⟩ := Option.map_eq_some_iff.1 h'
      cases heq
      rw [slot_array_of_position hposition, slot_array_of_position hposition']
  | _ => cases h

/-- Values of one kind are told by their children. -/
theorem eq_of_child?_eq (hkind : SameKind root root') (hroot : root.Ordered)
    (hroot' : root'.Ordered) (h : ∀ step, root.Own step → root.child? step = root'.child? step) :
    root = root' := by
  cases root with
  | object members =>
      cases root' with
      | object members' =>
          rw [Ordered] at hroot hroot'
          have hmembers : members = members' := Dict.eq_of_find?_eq hroot.1 hroot'.1
            fun key => h (.key key) trivial
          rw [hmembers]
      | _ => cases hkind
  | array items =>
      cases root' with
      | array items' =>
          have hitems : items = items' :=
            List.ext_getElem? fun position => h (.index position) trivial
          rw [hitems]
      | _ => cases hkind
  | _ => cases hkind

/-! ### Putting a child into its slot -/

/-- A child of an array is the item at the position of its key. -/
theorem exists_position_of_child? {items : List Json}
    (h : (Json.array items).child? (.key key) = some child) :
    ∃ position, position? key.toList = some position ∧
      ∃ hlt : position < items.length, items[position] = child := by
  obtain ⟨position, hposition, hitem⟩ := Option.bind_eq_some_iff.1 h
  exact ⟨position, hposition, List.getElem?_eq_some_iff.1 hitem⟩

/-- Where there is a child there is room for it. -/
theorem hasRoom_of_child? (h : root.child? (.key key) = some child) : root.HasRoom key := by
  cases root with
  | object members => trivial
  | array items =>
      obtain ⟨position, hposition, hlt, -⟩ := exists_position_of_child? h
      exact ⟨position, hposition, Nat.le_of_lt hlt⟩
  | _ => cases h

/-- Only a container has room. -/
theorem HasRoom.isContainer (h : root.HasRoom key) : root.isContainer = true := by
  cases root <;> first | rfl | cases h

/-- Keys lead into the same slots after a child is put. -/
theorem slot_putChild (root : Json) (key : String) (child : Json) (other : String) :
    (root.putChild key child).slot other = root.slot other := by
  cases root with
  | array items =>
      cases hposition : position? key.toList with
      | none => rw [putChild_array_of_none hposition]
      | some position =>
          rw [putChild_array_of_position hposition]
          rfl
  | _ => rfl

/-- Room stays where a child is put in. -/
theorem HasRoom.putChild (h : root.HasRoom other) (key : String) (child : Json) :
    (root.putChild key child).HasRoom other := by
  cases root with
  | object members => trivial
  | array items =>
      obtain ⟨position, hposition, hle⟩ := h
      cases hput : position? key.toList with
      | none =>
          rw [putChild_array_of_none hput]
          exact ⟨position, hposition, hle⟩
      | some put =>
          rw [putChild_array_of_position hput]
          refine ⟨position, hposition, ?_⟩
          rw [List.length_set]
          split
          · rw [List.length_append]
            exact Nat.le_add_right_of_le hle
          · exact hle
  | _ => cases h

/-- A child that is put where there is room is found there. -/
theorem child?_putChild_self (h : root.HasRoom key) :
    (root.putChild key child).child? (.key key) = some child := by
  cases root with
  | object members =>
      show Dict.find? key (Dict.insert key child members) = _
      rw [Dict.find?_insert, if_pos rfl]
  | array items =>
      obtain ⟨position, hposition, hle⟩ := h
      rw [putChild_array_of_position hposition, child?_array_of_position hposition]
      split
      · next heq => exact List.getElem?_set_self (by rw [List.length_append, heq]; simp)
      · next hne => exact List.getElem?_set_self (by omega)
  | _ => cases h

/-- Putting back the child that is there changes nothing. -/
theorem putChild_eq_self (h : root.Ordered) (hchild : root.child? (.key key) = some child) :
    root.putChild key child = root := by
  cases root with
  | object members =>
      have hfind : Dict.find? key members = some child := hchild
      rw [Ordered] at h
      rw [putChild_object, Dict.insert_eq_self h.1 hfind]
  | array items =>
      obtain ⟨position, hposition, hlt, rfl⟩ := exists_position_of_child? hchild
      have hinside : ¬ position = items.length := Nat.ne_of_lt hlt
      rw [putChild_array_of_position hposition, if_neg hinside, List.set_getElem_self]
  | _ => cases hchild

/-- A container stays of its kind when a child is put. -/
theorem SameKind.putChild (h : root.isContainer = true) (key : String) (child : Json) :
    SameKind (root.putChild key child) root := by
  cases root with
  | object members => trivial
  | array items =>
      cases hposition : position? key.toList with
      | none =>
          rw [putChild_array_of_none hposition]
          trivial
      | some position =>
          rw [putChild_array_of_position hposition]
          trivial
  | _ => cases h

/-- An array takes a child up in its length, or grows by one slot for it. -/
theorem exists_putChild_array (items : List Json) (key : String) (child : Json) :
    ∃ items', (Json.array items).putChild key child = .array items' ∧
      items'.length
        = if position? key.toList = some items.length then items.length + 1 else items.length := by
  cases hposition : position? key.toList with
  | none => exact ⟨items, putChild_array_of_none hposition, by simp⟩
  | some position =>
      refine ⟨_, putChild_array_of_position hposition, ?_⟩
      rw [List.length_set]
      by_cases hend : position = items.length
      · simp [hend]
      · simp [hend]

/-- A child that takes the place of another one leaves the length of its array. -/
theorem exists_putChild_array_of_child? {items : List Json}
    (hchild : (Json.array items).child? (.key key) = some child) (made : Json) :
    ∃ items', (Json.array items).putChild key made = .array items' ∧
      items'.length = items.length := by
  obtain ⟨position, hposition, hlt, -⟩ := exists_position_of_child? hchild
  obtain ⟨items', hput, hlength⟩ := exists_putChild_array items key made
  have hinside : ¬ position? key.toList = some items.length := by
    intro hend
    rw [hposition] at hend
    cases hend
    omega
  rw [if_neg hinside] at hlength
  exact ⟨items', hput, hlength⟩

/-- The child that is put is found by the own step that the key stands for. -/
theorem child?_putChild_of_stepOf (hroom : root.HasRoom key) (h : root.stepOf key = some step) :
    (root.putChild key child).child? step = some child := by
  have hsame := SameKind.putChild hroom.isContainer key child
  rw [← child?_putChild_self hroom]
  exact (Json.child?_of_stepOf ((hsame.stepOf_eq key).trans h)).symm

/-- Only the own step that the key stands for leads to the child that is put. Every other own step
of the value, to a key of an object or to a position of an array, leads where it did. -/
theorem child?_putChild_of_stepOf_ne (hown : root.Own step) (h : root.stepOf key ≠ some step) :
    (root.putChild key child).child? step = root.child? step := by
  cases root with
  | object members =>
      cases step with
      | index position => cases hown
      | key other =>
          have hne : key ≠ other := fun heq => h (congrArg (fun name => some (Step.key name)) heq)
          show Dict.find? other (Dict.insert key child members) = _
          rw [Dict.find?_insert, if_neg hne]
          rfl
  | array items =>
      cases step with
      | key other => cases hown
      | index other =>
          cases hposition : position? key.toList with
          | none => rw [putChild_array_of_none hposition]
          | some position =>
              have hne : position ≠ other := by
                rintro rfl
                exact h (by rw [stepOf, hposition]; rfl)
              rw [putChild_array_of_position hposition]
              show ((if _ then _ else _ : List Json).set position child)[other]? = items[other]?
              rw [List.getElem?_set_ne hne]
              split
              · -- The array has grown by the position of `key` alone.
                rcases Nat.lt_trichotomy other items.length with hlt | heq | hgt
                · exact List.getElem?_append_left hlt
                · omega
                · rw [List.getElem?_eq_none (by simp; omega), List.getElem?_eq_none (by omega)]
              · rfl
  | _ => cases hown

/-- What is in other slots stays. -/
theorem child?_putChild_of_ne (h : root.slot key ≠ root.slot other) :
    (root.putChild key child).child? (.key other) = root.child? (.key other) := by
  cases hother : root.stepOf other with
  | some step =>
      have hne : root.stepOf key ≠ some step := fun hkey =>
        h (slot_eq_of_stepOf_eq hkey hother)
      have hown := own_of_stepOf hother
      have hsame := SameKind.putChild hown.isContainer key child
      rw [child?_of_stepOf hother, child?_of_stepOf ((hsame.stepOf_eq other).trans hother)]
      exact child?_putChild_of_stepOf_ne hown hne
  | none =>
      cases root with
      | object members => cases hother
      | array items =>
          -- The key spells no position, so there is nothing in its slot, before and after.
          have hother : position? other.toList = none := Option.map_eq_none_iff.1 hother
          have hnone : ∀ items : List Json, (Json.array items).child? (.key other) = none := by
            intro items
            show position? other.toList >>= _ = none
            rw [hother]
            rfl
          obtain ⟨items', hput, -⟩ := exists_putChild_array items key child
          rw [hput, hnone, hnone]
      | _ => rfl

/-- A change one step down reads the child and puts what becomes of it into its slot. -/
theorem modifyChild?_eq (root : Json) (key : String) (f : Json → Option Json) :
    root.modifyChild? (.key key) f
      = (root.child? (.key key) >>= f).map fun child => root.putChild key child := by
  cases root with
  | object members =>
      show (Dict.find? key members >>= fun child => f child >>= _)
        = Option.map _ (Dict.find? key members >>= f)
      cases Dict.find? key members with
      | none => rfl
      | some child =>
          show f child >>= _ = Option.map _ (f child)
          cases f child <;> rfl
  | array items =>
      cases hposition : position? key.toList with
      | none => simp only [modifyChild?, child?, Step.asPosition?, hposition]; rfl
      | some position =>
          simp only [modifyChild?, child?, Step.asPosition?, hposition,
            putChild_array_of_position hposition, Option.bind_eq_bind, Option.bind_some]
          cases hitem : items[position]? with
          | none => rfl
          | some child =>
              have hlt := (List.getElem?_eq_some_iff.1 hitem).1
              have hne : ¬ position = items.length := by omega
              simp only [Option.bind_some, hne, if_false]
              cases f child <;> rfl
  | _ => rfl

/-- An assignment below a value needs an array or an object. -/
theorem isContainer_of_assignAt {step : Step} {rest : List Step}
    (h : assignAt value (step :: rest) root = (written, none)) : root.isContainer = true := by
  cases root <;> first | rfl | cases h

/-- What an assignment does first, and what must hold for it to succeed. -/
theorem assignAt_cons_iff {rest : List Step} :
    assignAt value (.key key :: rest) root = (written, none) ↔
      root.HasRoom key ∧
      ∃ child, assignAt value rest (parentOrNew (root.child? (.key key))) = (child, none) ∧
        root.putChild key child = written := by
  have hkey : (Step.key key).asKey = key := rfl
  have hasPosition : (Step.key key).asPosition? = position? key.toList := rfl
  cases root with
  | object members =>
      have hchild : (Json.object members).child? (.key key) = Dict.find? key members := rfl
      cases rest with
      | nil => simp [assignAt, hkey, HasRoom, putChild_object]
      | cons next rest =>
          rw [assignAt]
          cases hassign : assignAt value (next :: rest) (parentOrNew (Dict.find? key members)) with
          | mk made fault =>
              by_cases hparent : (parentOrNew (Dict.find? key members)).isContainer = true
              · simp [hkey, hchild, hparent, hassign, HasRoom, putChild_object, and_comm]
              · -- A parent that holds no children makes the rest of the assignment fail as well.
                have hfault : fault ≠ none := by
                  rintro rfl
                  exact hparent (isContainer_of_assignAt hassign)
                simp [hkey, hchild, hparent, hassign, hfault]
  | array items =>
      cases hposition : position? key.toList with
      | none => simp [assignAt, hasPosition, hposition, HasRoom]
      | some position =>
          rw [child?_array_of_position hposition, assignAt]
          simp only [hasPosition, hposition, HasRoom, putChild_array_of_position hposition,
            Option.some.injEq, exists_eq_left']
          by_cases hlt : items.length < position
          · simp [hlt]
          · have hle := Nat.le_of_not_lt hlt
            cases rest with
            | nil => simp [hlt, hle, assignAt]
            | cons next rest =>
                cases hassign : assignAt value (next :: rest) (parentOrNew items[position]?) with
                | mk made fault =>
                    by_cases hparent : (parentOrNew items[position]?).isContainer = true
                    · simp [hlt, hle, hparent, and_comm]
                    · have hfault : fault ≠ none := by
                        rintro rfl
                        exact hparent (isContainer_of_assignAt hassign)
                      simp [hlt, hparent, hfault]
  | _ => simp [assignAt, HasRoom]

/-- Below a parent that is made there is nothing to read. -/
theorem getAt?_parentOrNew (made : Option Json) {rest : List Step} (h : rest ≠ []) :
    (parentOrNew made).getAt? rest = made >>= getAt? rest := by
  cases rest with
  | nil => exact absurd rfl h
  | cons step rest =>
      cases made with
      | none => rfl
      | some child => cases child <;> rfl

/-! ### Places -/

/-- The place that keys lead to: their slots, as far as the value goes. -/
def place : List String → Json → List String
  | [], _ => []
  | key :: rest, root =>
    root.slot key ::
      match root.child? (.key key) with
      | some child => child.place rest
      | none => rest

/-- The place goes on below the first slot, if there is a child. -/
theorem place_cons_of_child? (h : root.child? (.key key) = some child) :
    root.place (key :: keys) = root.slot key :: child.place keys := by
  rw [place, h]

/-- A place has one slot for each key. -/
theorem length_place (keys : List String) (root : Json) :
    (root.place keys).length = keys.length := by
  induction keys generalizing root with
  | nil => rfl
  | cons key rest ih =>
      rw [place, List.length_cons, List.length_cons]
      split
      · rw [ih]
      · rfl

end DeclaredApi.Json
