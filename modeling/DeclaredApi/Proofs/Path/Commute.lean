import DeclaredApi.Proofs.Path.Diverge
import DeclaredApi.Proofs.Path.Removal

/-!
# `DeclaredApi.Proofs.Path.Commute`: writes and deletions at places apart

Two places are apart in a value if neither is the other or above it (`Apart`). What is done at one
of them is not seen at the other (`getAt?_assignAt_of_apart`, `getAt?_without_of_outside`), and so
it does not matter which is done first: a write commutes with a deletion (`assignAt_without`) and
with another write (`assignAt_comm`). Keys that are apart go through the same slots for a while and
then part (`inductionOnApart`). Below a shared slot both are done in its child, and where the keys
part each is done in a slot of its own. So all that there is to show is that what is put into
different slots commutes (`putChild_comm`, `deleteChild_putChild`), and that of what is put into one
slot the last counts (`putChild_putChild`).

A write at a place where nothing is may make parents on its way, and lengthen an array. To delete
again what was written takes back neither. It makes the write undone exactly if the parent is an
object that was there before (`without_assignAt_eq_self_iff`).
-/

set_option autoImplicit false

namespace DeclaredApi

namespace Json

open DeclaredApi.Path (Step)

variable {root value value' child child' found written written' : Json} {key other : String}
  {names rest others : List String}

/-! ### One step down -/

section Slots

variable {step : Step}

/-- A child is put into a slot, whatever key leads there. -/
theorem putChild_of_slot_eq (hslot : root.slot key = root.slot other) :
    root.putChild key child = root.putChild other child := by
  cases root with
  | object members =>
      have heq : key = other := hslot
      rw [heq]
  | array items => rw [putChild, putChild, position?_eq_of_slot_eq hslot]
  | _ => rfl

/-- A child is read in its slot, whatever key leads there. -/
theorem child?_putChild_of_slot_eq (hroom : root.HasRoom key)
    (hslot : root.slot key = root.slot other) :
    (root.putChild key child).child? (.key other) = some child := by
  have hsame : (root.putChild key child).slot key = (root.putChild key child).slot other := by
    rwa [slot_putChild, slot_putChild]
  exact (child?_of_slot_eq hsame).symm.trans (child?_putChild_self hroom)

/-- What is one step down after a child was put into a slot. -/
theorem child?_putChild (hroom : root.HasRoom key) (hown : root.Own step) :
    (root.putChild key child).child? step
      = if root.stepOf key = some step then some child else root.child? step := by
  split
  · next hstep => exact child?_putChild_of_stepOf hroom hstep
  · next hstep => exact child?_putChild_of_stepOf_ne hown hstep

/-- Two children are put into a value without a change of its kind. -/
theorem SameKind.putChild_putChild (hroom : root.HasRoom key) :
    SameKind ((root.putChild key child).putChild other child') root :=
  (SameKind.putChild (hroom.putChild key child).isContainer other child').trans
    (SameKind.putChild hroom.isContainer key child)

/-- What is one step down after two children were put into slots. -/
theorem child?_putChild_putChild (hroom : root.HasRoom key) (hroom' : root.HasRoom other)
    (hown : root.Own step) :
    ((root.putChild key child).putChild other child').child? step
      = if root.stepOf other = some step then some child'
        else if root.stepOf key = some step then some child else root.child? step := by
  have hkind := SameKind.putChild hroom.isContainer key child
  rw [child?_putChild (hroom'.putChild key child) (hkind.symm.own hown), hkind.stepOf_eq,
    child?_putChild hroom hown]

/-- Of two children that are put into one slot, the last counts. -/
theorem putChild_putChild (hroot : root.Ordered) (hchild : child.Ordered)
    (hchild' : child'.Ordered) (hroom : root.HasRoom key)
    (hslot : root.slot key = root.slot other) :
    (root.putChild key child).putChild other child' = root.putChild other child' := by
  have hsame : (root.putChild key child).slot key = (root.putChild key child).slot other := by
    rwa [slot_putChild, slot_putChild]
  rw [← putChild_of_slot_eq hslot, ← putChild_of_slot_eq hsame]
  have hkind : SameKind ((root.putChild key child).putChild key child') root :=
    SameKind.putChild_putChild hroom
  refine eq_of_child?_eq (hkind.trans (SameKind.putChild hroom.isContainer key child').symm)
    ((hroot.putChild hchild).putChild hchild') (hroot.putChild hchild') fun step hown => ?_
  rw [child?_putChild_putChild hroom hroom (hkind.own hown),
    child?_putChild hroom (hkind.own hown)]
  split <;> rfl

/-- Children are put into different slots in any order. -/
theorem putChild_comm (hroot : root.Ordered) (hchild : child.Ordered) (hchild' : child'.Ordered)
    (hroom : root.HasRoom key) (hroom' : root.HasRoom other)
    (hne : root.slot key ≠ root.slot other) :
    (root.putChild key child).putChild other child'
      = (root.putChild other child').putChild key child := by
  have hkind : SameKind ((root.putChild key child).putChild other child') root :=
    SameKind.putChild_putChild hroom
  refine eq_of_child?_eq (hkind.trans (SameKind.putChild_putChild hroom').symm)
    ((hroot.putChild hchild).putChild hchild') ((hroot.putChild hchild').putChild hchild)
    fun step hown => ?_
  rw [child?_putChild_putChild hroom hroom' (hkind.own hown),
    child?_putChild_putChild hroom' hroom (hkind.own hown)]
  -- The step leads to one of the two slots at most.
  by_cases hkey : root.stepOf key = some step
  · have hother : root.stepOf other ≠ some step := fun hother =>
      hne (slot_eq_of_stepOf_eq hkey hother)
    rw [if_neg hother, if_pos hkey, if_pos hkey]
  · rw [if_neg hkey, if_neg hkey]

/-- A child of an array is deleted by putting a null into its slot. -/
theorem deleteChild_array {items : List Json}
    (hfound : (Json.array items).child? (.key key) = some found) :
    (Json.array items).deleteChild (.key key) = (Json.array items).putChild key .null := by
  obtain ⟨position, hposition, hlt, -⟩ := exists_position_of_child? hfound
  have hinside : ¬ position = items.length := Nat.ne_of_lt hlt
  simp only [deleteChild, Step.asPosition?, hposition, putChild_array_of_position hposition,
    hinside, if_false]

/-- A child is deleted from one slot and another one put into another slot in any order. -/
theorem deleteChild_putChild (hroot : root.Ordered) (hchild : child.Ordered)
    (hfound : root.child? (.key key) = some found) (hroom : root.HasRoom other)
    (hne : root.slot key ≠ root.slot other) :
    (root.putChild other child).deleteChild (.key key)
      = (root.deleteChild (.key key)).putChild other child := by
  cases root with
  | object members =>
      rw [Ordered] at hroot
      exact congrArg object (Dict.erase_insert_of_ne hroot.1 hne child)
  | array items =>
      have hkept : ((Json.array items).putChild other child).child? (.key key) = some found :=
        (child?_putChild_of_ne hne.symm).trans hfound
      have hnull : Json.null.Ordered := by trivial
      obtain ⟨items', hput, -⟩ := exists_putChild_array items other child
      rw [deleteChild_array hfound,
        putChild_comm hroot hnull hchild (hasRoom_of_child? hfound) hroom hne, hput]
      rw [hput] at hkept
      exact deleteChild_array hkept
  | _ => cases hfound

/-- Deleting a child takes no room from others. -/
theorem HasRoom.deleteChild (hroom : root.HasRoom other) (key : String) :
    (root.deleteChild (.key key)).HasRoom other := by
  cases root with
  | object members => trivial
  | array items =>
      obtain ⟨items', hleft, hlength⟩ := exists_array_without items [key]
      obtain ⟨position, hposition, hle⟩ := hroom
      rw [← without_singleton, hleft]
      exact ⟨position, hposition, hlength ▸ hle⟩
  | _ => cases hroom

end Slots

/-! ### A deletion along keys and one slot -/

/-- What a deletion along keys leaves in the slot of its first key is seen in that slot alone. -/
theorem without_putChild_of_ne (hroot : root.Ordered) (hchild : child.Ordered)
    (hfound : root.child? (.key key) = some found) (hroom : root.HasRoom other)
    (hne : root.slot key ≠ root.slot other) (rest : List String) :
    (root.putChild other child).without (key :: rest)
      = (root.without (key :: rest)).putChild other child := by
  by_cases hrest : rest = []
  · subst hrest
    exact deleteChild_putChild hroot hchild hfound hroom hne
  · have hkept : (root.putChild other child).child? (.key key) = some found :=
      (child?_putChild_of_ne hne.symm).trans hfound
    rw [without_cons_of_child? (hroot.putChild hchild) hrest hkept,
      without_cons_of_child? hroot hrest hfound]
    exact putChild_comm hroot hchild ((hroot.child? hfound).without rest) hroom
      (hasRoom_of_child? hfound) hne.symm

/-- Nor does deleting further down. -/
theorem HasRoom.without (hroot : root.Ordered) (hroom : root.HasRoom other) :
    (root.without names).HasRoom other := by
  cases names with
  | nil => exact hroom
  | cons key rest =>
      by_cases hrest : rest = []
      · subst hrest
        exact hroom.deleteChild key
      · cases hchild : root.child? (.key key) with
        | none => rwa [without_cons_of_absent hrest hchild]
        | some child =>
            rw [without_cons_of_child? hroot hrest hchild]
            exact hroom.putChild key _

/-- Keys lead into the same slots after something is deleted. -/
theorem slot_without (root : Json) (key : String) (rest : List String) (other : String) :
    (root.without (key :: rest)).slot other = root.slot other := by
  by_cases hrest : rest = []
  · subst hrest
    exact slot_deleteChild root key other
  · rw [without, deleteAt?_cons root key hrest]
    cases root.child? (.key key) >>= deleteAt? (rest.map .key) with
    | none => rfl
    | some left => exact slot_putChild root key left other

/-- A container stays one, and a leaf stays a leaf. -/
theorem isContainer_putChild (root : Json) (key : String) (child : Json) :
    (root.putChild key child).isContainer = root.isContainer := by
  cases root with
  | array items =>
      obtain ⟨items', hput, -⟩ := exists_putChild_array items key child
      rw [hput]
      rfl
  | _ => rfl

/-- A deletion leaves an object or an array what it is. -/
theorem isContainer_without (root : Json) (names : List String) :
    (root.without names).isContainer = root.isContainer := by
  cases names with
  | nil => rfl
  | cons key rest =>
      by_cases hrest : rest = []
      · subst hrest
        rw [without_singleton]
        cases root with
        | array items =>
            rw [deleteChild]
            split <;> rfl
        | _ => rfl
      · rw [without, deleteAt?_cons root key hrest]
        cases root.child? (.key key) >>= deleteAt? (rest.map .key) with
        | none => rfl
        | some left => exact isContainer_putChild root key left

/-- There is nothing to delete in an empty object. -/
theorem without_empty (names : List String) : (Json.object []).without names = .object [] := by
  cases names with
  | nil => rfl
  | cons key rest => exact without_eq_self ordered_empty rfl

/-- There is nothing to delete in a leaf. -/
theorem without_leaf (hleaf : root.isContainer = false) (names : List String) :
    root.without names = root := by
  cases names with
  | nil => rfl
  | cons key rest => cases root <;> first | exact without_eq_self (by trivial) rfl | cases hleaf

/-- A parent is made of what a deletion leaves, or something is deleted from a parent that was
made: it is the same. -/
theorem parentOrNew_map_without (made : Option Json) (names : List String) :
    parentOrNew (made.map (·.without names)) = (parentOrNew made).without names := by
  cases made with
  | none => exact (without_empty names).symm
  | some child =>
      cases hcontainer : child.isContainer with
      | true =>
          have hleft := (isContainer_without child names).trans hcontainer
          rw [Option.map_some, parentOrNew_some hcontainer, parentOrNew_some hleft]
      | false =>
          rw [Option.map_some, without_leaf hcontainer]
          cases child with
          | null => exact (without_empty names).symm
          | _ => exact (without_leaf hcontainer names).symm

/-- A deletion that goes on below a slot leaves there what it leaves of the child. -/
theorem child?_without_of_slot_eq (hroot : root.Ordered) (hrest : rest ≠ [])
    (hslot : root.slot key = root.slot other) :
    (root.without (key :: rest)).child? (.key other)
      = (root.child? (.key other)).map (·.without rest) := by
  rw [← child?_of_slot_eq hslot]
  cases hchild : root.child? (.key key) with
  | none =>
      rw [without_cons_of_absent hrest hchild, ← child?_of_slot_eq hslot, hchild]
      rfl
  | some child =>
      rw [without_cons_of_child? hroot hrest hchild]
      exact child?_putChild_of_slot_eq (hasRoom_of_child? hchild) hslot

/-! ### Places apart -/

/-- In an empty object every key is its own slot. -/
theorem place_empty (names : List String) : (Json.object []).place names = names := by
  cases names <;> rfl

/-- Below a slot the place of keys is told by its child, or by an object that is made there. -/
theorem place_cons (root : Json) (key : String) (rest : List String) :
    root.place (key :: rest)
      = root.slot key :: (parentOrNew (root.child? (.key key))).place rest := by
  rw [place]
  cases hchild : root.child? (.key key) with
  | none => exact congrArg _ (place_empty rest).symm
  | some child =>
      cases child with
      | null => cases rest <;> rfl
      | _ => rfl

/-- Neither of the two places is the other one, or above it. -/
def Apart (root : Json) (names others : List String) : Prop :=
  ¬ root.place names <+: root.place others ∧ ¬ root.place others <+: root.place names

/-- Being apart is symmetric. -/
theorem Apart.symm (h : root.Apart names others) : root.Apart others names :=
  And.symm h

/-- The root is above every place, so it is apart from none. -/
theorem Apart.ne_nil (h : root.Apart names others) : names ≠ [] := by
  rintro rfl
  exact h.1 List.nil_prefix

/-- No place is apart from itself. -/
theorem Apart.ne (h : root.Apart names others) : names ≠ others := by
  rintro rfl
  exact h.1 List.prefix_rfl

/-- Induction along keys that are apart. They part in their first slots, or they go on in the child
of one slot and part there. -/
theorem inductionOnApart {motive : ∀ (root : Json) (names others : List String),
      root.Apart names others → Prop}
    (parts : ∀ root key rest other others h, root.slot key ≠ root.slot other →
      motive root (key :: rest) (other :: others) h)
    (shares : ∀ root key rest other others h, root.slot key = root.slot other →
      ∀ hrest : (parentOrNew (root.child? (.key other))).Apart rest others,
        motive _ rest others hrest → motive root (key :: rest) (other :: others) h)
    (h : root.Apart names others) : motive root names others h := by
  induction names generalizing root others with
  | nil => exact absurd rfl h.ne_nil
  | cons key rest ih =>
      cases others with
      | nil => exact absurd rfl h.symm.ne_nil
      | cons other others =>
          by_cases hslot : root.slot key = root.slot other
          · -- One slot for both keys, so neither of the rests leads to the place of the other.
            have hrest : (parentOrNew (root.child? (.key other))).Apart rest others := by
              have hparts := h
              rw [Apart, place_cons, place_cons, hslot, child?_of_slot_eq hslot,
                List.cons_prefix_cons, List.cons_prefix_cons] at hparts
              exact ⟨fun hprefix => hparts.1 ⟨rfl, hprefix⟩,
                fun hprefix => hparts.2 ⟨rfl, hprefix⟩⟩
            exact shares root key rest other others h hslot hrest (ih hrest)
          · exact parts root key rest other others h hslot

/-- The value that is written into on the way down is sorted. -/
theorem Ordered.parent (hroot : root.Ordered) (key : String) :
    (Json.parentOrNew (root.child? (.key key))).Ordered :=
  Ordered.parentOrNew fun _ hchild => hroot.child? hchild

/-! ### What is done at one place is not seen at the other -/

/-- A deletion leaves the places that are not inside the deleted value. -/
theorem place_without (hroot : root.Ordered) (houtside : ¬ root.place names <+: root.place others) :
    (root.without names).place others = root.place others := by
  induction names generalizing root others with
  | nil => exact absurd List.nil_prefix houtside
  | cons key rest ih =>
      cases others with
      | nil => rfl
      | cons other others =>
          rw [place_cons, place_cons root other, slot_without]
          by_cases hslot : root.slot key = root.slot other
          · -- With no rest the slot of both keys would go, and the other place with it.
            have hrest : rest ≠ [] := by
              rintro rfl
              rw [place_cons, place_cons, hslot] at houtside
              exact houtside (List.cons_prefix_cons.2 ⟨rfl, List.nil_prefix⟩)
            rw [place_cons, place_cons, hslot, List.cons_prefix_cons, not_and,
              child?_of_slot_eq hslot] at houtside
            rw [child?_without_of_slot_eq hroot hrest hslot, parentOrNew_map_without,
              ih (hroot.parent other) (houtside rfl)]
          · rw [child?_without_of_ne hslot]

/-- A deletion leaves what is read at a place apart. -/
theorem getAt?_without_of_outside (hroot : root.Ordered) (hapart : root.Apart names others) :
    (root.without names).getAt? (others.map .key) = root.getAt? (others.map .key) := by
  induction hapart using inductionOnApart with
  | parts root key rest other others h hslot =>
      rw [List.map_cons, getAt?, getAt?, child?_without_of_ne hslot]
  | shares root key rest other others h hslot hrest ih =>
      have hbelow : others.map Step.key ≠ [] := by simpa using hrest.symm.ne_nil
      rw [List.map_cons, getAt?, getAt?, child?_without_of_slot_eq hroot hrest.ne_nil hslot,
        ← getAt?_parentOrNew _ hbelow, ← getAt?_parentOrNew _ hbelow, parentOrNew_map_without]
      exact ih (hroot.parent other)

/-- A write leaves what is read at a place apart. -/
theorem getAt?_assignAt_of_apart (hapart : root.Apart names others)
    (hassign : assignAt value (names.map .key) root = (written, none)) :
    written.getAt? (others.map .key) = root.getAt? (others.map .key) := by
  induction hapart using inductionOnApart generalizing written with
  | parts root key rest other others h hslot =>
      obtain ⟨-, made, -, rfl⟩ := assignAt_cons_iff.1 hassign
      rw [List.map_cons, getAt?, getAt?, child?_putChild_of_ne hslot]
  | shares root key rest other others h hslot hrest ih =>
      obtain ⟨hroom, made, hmade, rfl⟩ := assignAt_cons_iff.1 hassign
      rw [child?_of_slot_eq hslot] at hmade
      have hbelow : others.map Step.key ≠ [] := by simpa using hrest.symm.ne_nil
      rw [List.map_cons, getAt?, getAt?, child?_putChild_of_slot_eq hroom hslot]
      -- The parent that was made or found has at the other keys what was there.
      exact (ih hmade).trans (getAt?_parentOrNew _ hbelow)

/-! ### The order of two changes -/

/-- What is written below is no parent that has to be made. -/
theorem parentOrNew_of_assignAt (hnames : names ≠ [])
    (hassign : assignAt value (names.map .key) root = (written, none)) :
    parentOrNew (some root) = root := by
  cases names with
  | nil => exact absurd rfl hnames
  | cons key rest => exact parentOrNew_some (isContainer_of_assignAt hassign)

/-- A deletion and a write at places apart are done in any order. -/
theorem assignAt_without (hroot : root.Ordered) (hvalue : value.Ordered)
    (hapart : root.Apart names others) (hget : root.getAt? (names.map .key) = some found)
    (hassign : assignAt value (others.map .key) root = (written, none)) :
    assignAt value (others.map .key) (root.without names) = (written.without names, none) := by
  induction hapart using inductionOnApart generalizing written with
  | parts root key rest other others h hslot =>
      obtain ⟨child, hchild, -⟩ := Option.bind_eq_some_iff.1 hget
      obtain ⟨hroom, made, hmade, rfl⟩ := assignAt_cons_iff.1 hassign
      have hordered : made.Ordered := (hroot.parent other).assignAt hvalue hmade
      refine assignAt_cons_iff.2 ⟨hroom.without hroot, made, ?_,
        (without_putChild_of_ne hroot hordered hchild hroom hslot rest).symm⟩
      rwa [child?_without_of_ne hslot]
  | shares root key rest other others h hslot hrest ih =>
      obtain ⟨child, hchild, hget⟩ := Option.bind_eq_some_iff.1 hget
      obtain ⟨hroom, made, hmade, rfl⟩ := assignAt_cons_iff.1 hassign
      have hordered : made.Ordered := (hroot.parent other).assignAt hvalue hmade
      have hleft := hordered.without rest
      -- The write put its value into the slot of both keys, so the deletion goes on in that value.
      have hfound : (root.putChild other made).child? (.key key) = some made :=
        child?_putChild_of_slot_eq hroom hslot.symm
      refine assignAt_cons_iff.2 ⟨hroom.without hroot, made.without rest, ?_, ?_⟩
      · rw [child?_without_of_slot_eq hroot hrest.ne_nil hslot, parentOrNew_map_without]
        refine ih (hroot.parent other) ?_ hmade
        rw [getAt?_parentOrNew _ (by simpa using hrest.ne_nil), ← child?_of_slot_eq hslot, hchild]
        exact hget
      · rw [without_cons_of_child? hroot hrest.ne_nil hchild,
          without_cons_of_child? (hroot.putChild hordered) hrest.ne_nil hfound,
          putChild_putChild hroot ((hroot.child? hchild).without rest) hleft
            (hasRoom_of_child? hchild) hslot,
          putChild_putChild hroot hordered hleft hroom hslot.symm, putChild_of_slot_eq hslot]

/-- Two writes at places apart are made in any order. -/
theorem assignAt_comm (hroot : root.Ordered) (hvalue : value.Ordered) (hvalue' : value'.Ordered)
    (hapart : root.Apart names others)
    (hassign : assignAt value (names.map .key) root = (written, none))
    (hassign' : assignAt value' (others.map .key) root = (written', none)) :
    ∃ both, assignAt value' (others.map .key) written = (both, none) ∧
      assignAt value (names.map .key) written' = (both, none) := by
  induction hapart using inductionOnApart generalizing written written' with
  | parts root key rest other others h hslot =>
      obtain ⟨hroom, made, hmade, rfl⟩ := assignAt_cons_iff.1 hassign
      obtain ⟨hroom', made', hmade', rfl⟩ := assignAt_cons_iff.1 hassign'
      have hordered : made.Ordered := (hroot.parent key).assignAt hvalue hmade
      have hordered' : made'.Ordered := (hroot.parent other).assignAt hvalue' hmade'
      refine ⟨(root.putChild key made).putChild other made',
        assignAt_cons_iff.2 ⟨hroom'.putChild key made, made', ?_, rfl⟩,
        assignAt_cons_iff.2 ⟨hroom.putChild other made', made, ?_,
          (putChild_comm hroot hordered hordered' hroom hroom' hslot).symm⟩⟩
      · rwa [child?_putChild_of_ne hslot]
      · rwa [child?_putChild_of_ne hslot.symm]
  | shares root key rest other others h hslot hrest ih =>
      obtain ⟨hroom, made, hmade, rfl⟩ := assignAt_cons_iff.1 hassign
      obtain ⟨hroom', made', hmade', rfl⟩ := assignAt_cons_iff.1 hassign'
      rw [child?_of_slot_eq hslot] at hmade
      -- Both orders reach one value in the shared child. Of two values put into one slot, the later
      -- one stays.
      obtain ⟨both, hboth, hboth'⟩ := ih (hroot.parent other) hmade hmade'
      have hordered : made.Ordered := (hroot.parent other).assignAt hvalue hmade
      have hordered' : made'.Ordered := (hroot.parent other).assignAt hvalue' hmade'
      have hlast : both.Ordered := hordered.assignAt hvalue' hboth
      refine ⟨root.putChild other both,
        assignAt_cons_iff.2 ⟨hroom'.putChild key made, both, ?_,
          putChild_putChild hroot hordered hlast hroom hslot⟩,
        assignAt_cons_iff.2 ⟨hroom.putChild other made', both, ?_, ?_⟩⟩
      · rwa [child?_putChild_of_slot_eq hroom hslot,
          parentOrNew_of_assignAt hrest.symm.ne_nil hboth]
      · rwa [child?_putChild_of_slot_eq hroom' hslot.symm,
          parentOrNew_of_assignAt hrest.ne_nil hboth']
      · rw [putChild_putChild hroot hordered' hlast hroom' hslot.symm, putChild_of_slot_eq hslot]

/-! ### A write that is taken back -/

/-- To put a child changes nothing exactly if it was there already. -/
theorem putChild_eq_self_iff (hroot : root.Ordered) (hroom : root.HasRoom key) :
    root.putChild key child = root ↔ root.child? (.key key) = some child := by
  constructor
  · intro hput
    rw [← hput]
    exact child?_putChild_self hroom
  · exact putChild_eq_self hroot

/-- What was written into is a container. -/
theorem isContainer_of_written (hnames : names ≠ [])
    (hassign : assignAt value (names.map .key) root = (written, none)) :
    written.isContainer = true := by
  cases names with
  | nil => exact absurd rfl hnames
  | cons key rest =>
      obtain ⟨hroom, made, -, rfl⟩ := assignAt_cons_iff.1 hassign
      rw [isContainer_putChild, hroom.isContainer]

/-- A child that is deleted where none was before is taken back from an object, and leaves a null
in an array. -/
theorem deleteChild_putChild_eq_self_iff (hroot : root.Ordered) (hroom : root.HasRoom key)
    (habsent : root.child? (.key key) = none) :
    (root.putChild key child).deleteChild (.key key) = root ↔
      ∃ members, root = .object members := by
  cases root with
  | object members =>
      rw [Ordered] at hroot
      have hback := Dict.erase_insert_self hroot.1 habsent child
      exact iff_of_true (congrArg object hback) ⟨members, rfl⟩
  | array items =>
      refine iff_of_false (fun hback => ?_) (by simp)
      have hput : ((Json.array items).putChild key child).child? (.key key) = some child :=
        child?_putChild_self hroom
      obtain ⟨items', hitems, -⟩ := exists_putChild_array items key child
      rw [hitems] at hback hput
      have hnull := child?_deleteChild_array hput
      rw [hback, habsent] at hnull
      cases hnull
  | _ => exact hroom.elim

/-- To delete what was written where nothing was makes the write undone exactly if its parent was
there, as an object. -/
theorem without_assignAt_eq_self_iff {above : List String} {last : String} (hroot : root.Ordered)
    (hvalue : value.Ordered) (habsent : root.getAt? ((above ++ [last]).map .key) = none)
    (hassign : assignAt value ((above ++ [last]).map .key) root = (written, none)) :
    written.without (above ++ [last]) = root ↔
      ∃ members, root.getAt? (above.map .key) = some (.object members) := by
  induction above generalizing root written with
  | nil =>
      obtain ⟨hroom, made, -, rfl⟩ := assignAt_cons_iff.1 hassign
      have hchild : root.child? (.key last) = none := by
        cases hchild : root.child? (.key last) with
        | none => rfl
        | some child =>
            rw [List.nil_append, List.map_singleton, getAt?, hchild] at habsent
            cases habsent
      rw [List.nil_append, without_singleton, deleteChild_putChild_eq_self_iff hroot hroom hchild]
      simp only [List.map_nil, getAt?, Option.some.injEq]
  | cons next above ih =>
      obtain ⟨hroom, made, hmade, rfl⟩ := assignAt_cons_iff.1 hassign
      have hbelow : above ++ [last] ≠ [] := by simp
      have hordered : made.Ordered := (hroot.parent next).assignAt hvalue hmade
      have hput : (root.putChild next made).child? (.key next) = some made :=
        child?_putChild_self hroom
      rw [List.cons_append, without_cons_of_child? (hroot.putChild hordered) hbelow hput,
        putChild_putChild hroot hordered (hordered.without _) hroom rfl,
        putChild_eq_self_iff hroot hroom]
      rw [List.cons_append, List.map_cons, getAt?] at habsent
      rw [List.map_cons, getAt?]
      cases hchild : root.child? (.key next) with
      | none => simp
      | some child =>
          rw [hchild] at hmade habsent
          rw [Option.some.injEq, Option.bind_eq_bind, Option.bind_some]
          cases hcontainer : child.isContainer with
          | true =>
              rw [parentOrNew_some hcontainer] at hmade
              rw [eq_comm]
              exact ih (hroot.child? hchild) habsent hmade
          | false =>
              -- Below such a child there was nothing, and now there is a parent.
              refine iff_of_false (fun heq => ?_) fun hobject => ?_
              · have hleft := (isContainer_without made (above ++ [last])).trans
                  (isContainer_of_written hbelow hmade)
                rw [← heq, hcontainer] at hleft
                cases hleft
              · obtain ⟨members, hget⟩ := hobject
                have hparent := isContainer_of_getAt?_container hget rfl
                rw [hcontainer] at hparent
                cases hparent

end Json
end DeclaredApi
