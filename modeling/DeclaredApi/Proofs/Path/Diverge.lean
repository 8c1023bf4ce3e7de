import DeclaredApi.Proofs.Path.Delete
import DeclaredApi.Proofs.Path.Obstacle

/-!
# `DeclaredApi.Proofs.Path.Diverge`: writes and deletions are local

Two paths diverge where, after keys that they share, one goes on by another key than the other and
the two keys are not the same position. Then they lead into different slots, whatever they meet: an
object tells the keys apart, and an array the positions (`slot_ne_of_apart`).

The shared keys may lead through parents that an assignment makes, through a null that becomes an
object and into an array that grows. What is made there is made for one of the two paths alone, so
along the other one there is afterwards what was there before, or nothing as before
(`getAt?_assignAt_of_diverge`, `getAt?_without_of_diverge`).

`get?_of_diverge` is the law for paths.
-/

set_option autoImplicit false

namespace DeclaredApi

namespace Path

/-- After some keys that they share, the paths go on by different keys that are not one position. -/
def Diverge (path other : List Char) : Prop :=
  ∃ shared key key' rest rest',
    keys path = shared ++ key :: rest ∧ keys other = shared ++ key' :: rest' ∧ key ≠ key' ∧
    ∀ position, position? key.toList = some position → position? key'.toList ≠ some position

end Path

namespace Json

open DeclaredApi.Path (position? position?_toDigits lt_of_position?)

variable {root value written : Json} {key key' : String} {shared rest rest' : List String}
  {path other : List Char}

/-! ### Slots -/

/-- The slot of a key reads as the position that the key reads as. -/
theorem position?_slot (items : List Json) (key : String) :
    position? ((Json.array items).slot key).toList = position? key.toList := by
  cases hposition : position? key.toList with
  | none => simp only [slot, hposition]
  | some position =>
      rw [slot_array_of_position hposition, String.toList_ofList]
      exact position?_toDigits (lt_of_position? hposition)

/-- Keys with one slot read as one position. -/
theorem position?_eq_of_slot_eq {items : List Json}
    (hslot : (Json.array items).slot key = (Json.array items).slot key') :
    position? key.toList = position? key'.toList := by
  rw [← position?_slot items key, hslot, position?_slot]

/-- Different keys that are not one position lead into different slots. -/
theorem slot_ne_of_apart (root : Json) (hne : key ≠ key')
    (hposition : ∀ position, position? key.toList = some position →
      position? key'.toList ≠ some position) : root.slot key ≠ root.slot key' := by
  intro hslot
  cases root with
  | array items =>
      have hsame : position? key.toList = position? key'.toList := position?_eq_of_slot_eq hslot
      cases hkey : position? key.toList with
      | some position => exact hposition position hkey (hsame.symm.trans hkey)
      | none =>
          -- Without a position the slot is the key itself.
          have hkey' : position? key'.toList = none := hsame.symm.trans hkey
          simp only [slot, hkey, hkey'] at hslot
          exact hne hslot
  | _ => exact hne hslot

/-! ### Along the other path -/

section Apart

variable (hapart : ∀ root : Json, root.slot key ≠ root.slot key')

include hapart

/-- An assignment leaves what is read along keys that part from its own. -/
theorem getAt?_assignAt_of_diverge
    (hassign : assignAt value ((shared ++ key :: rest).map .key) root = (written, none)) :
    written.getAt? ((shared ++ key' :: rest').map .key)
      = root.getAt? ((shared ++ key' :: rest').map .key) := by
  induction shared generalizing root written with
  | nil =>
      obtain ⟨-, child, -, rfl⟩ := assignAt_cons_iff.1 hassign
      rw [List.nil_append, List.map_cons, getAt?, getAt?, child?_putChild_of_ne (hapart root)]
  | cons next shared ih =>
      obtain ⟨hroom, child, hchild, rfl⟩ := assignAt_cons_iff.1 hassign
      have hbelow : (shared ++ key' :: rest').map Path.Step.key ≠ [] := by simp
      rw [List.cons_append, List.map_cons, getAt?, getAt?, child?_putChild_self hroom]
      -- The parent that was made or found has along the other keys what was there.
      exact (ih hchild).trans (getAt?_parentOrNew _ hbelow)

/-- A deletion leaves what is read along keys that part from its own. -/
theorem getAt?_without_of_diverge :
    (root.without (shared ++ key :: rest)).getAt? ((shared ++ key' :: rest').map .key)
      = root.getAt? ((shared ++ key' :: rest').map .key) := by
  induction shared generalizing root with
  | nil =>
      rw [List.nil_append, List.nil_append, List.map_cons, getAt?, getAt?,
        child?_without_of_ne (hapart root)]
  | cons next shared ih =>
      have hbelow : shared ++ key :: rest ≠ [] := by simp
      rw [List.cons_append, List.cons_append]
      cases hchild : root.child? (.key next) with
      | none =>
          rw [without, deleteAt?_cons root next hbelow, hchild]
          rfl
      | some child =>
          rw [getAt?_without_cons hbelow hchild rfl, ih, List.map_cons, getAt?, hchild]
          rfl

end Apart

/-! ### Paths -/

/-- What is read at a path stays, when something is assigned at a path that diverges from it,
whether the assignment succeeds or fails, and when something is deleted there. -/
theorem get?_of_diverge (hroot : root.Ordered) (hpath : Path.Plain path)
    (hother : Path.Plain other) (h : Path.Diverge path other) (value : Json) :
    (root.assign path value).1.get? other = root.get? other ∧
    (root.delete path).get? other = root.get? other := by
  obtain ⟨shared, key, key', rest, rest', hkeys, hkeys', hne, hposition⟩ := h
  have hapart : ∀ root : Json, root.slot key ≠ root.slot key' := fun root =>
    slot_ne_of_apart root hne hposition
  constructor
  · cases hassign : root.assign path value with
    | mk left fault =>
        cases fault with
        | none =>
            rw [assign_eq_iff_of_plain hpath, hkeys] at hassign
            rw [get?_of_plain hother, get?_of_plain hother, hkeys']
            exact getAt?_assignAt_of_diverge hapart hassign
        | some fault =>
            have hleft : left = root := eq_of_assign_fault hroot hassign
            rw [hleft]
  · rw [delete_of_plain hpath, get?_of_plain hother, get?_of_plain hother, hkeys, hkeys']
    exact getAt?_without_of_diverge hapart

/-- An order whose discount is not known yet. -/
def openOrder : Json :=
  .object [("discount", .null), ("items", .array [.string "pen", .string "ink"])]

/-- An item that is appended leaves the items before it, and so does one that is deleted. -/
theorem get?_of_diverge_in_openOrder :
    Path.Diverge "items[2].sku".toList "items.1".toList ∧
      (openOrder.assign "items[2].sku".toList (.string "cup")).1.get? "items.1".toList
        = some (.string "ink") ∧
      (openOrder.delete "items[2].sku".toList).get? "items.1".toList = some (.string "ink") := by
  have hordered : openOrder.Ordered := by
    simp only [openOrder, Ordered, OrderedMembers, OrderedItems, Dict.Sorted]
    decide
  have hget : openOrder.get? "items.1".toList = some (.string "ink") := by with_unfolding_all rfl
  have hposition : ∀ position, position? "2".toList = some position →
      position? "1".toList ≠ some position := by
    intro position htwo hone
    rw [show position? "2".toList = some 2 by decide] at htwo
    rw [show position? "1".toList = some 1 by decide] at hone
    cases htwo
    cases hone
  have hdiverge : Path.Diverge "items[2].sku".toList "items.1".toList :=
    ⟨["items"], "2", "1", ["sku"], [], by with_unfolding_all rfl, by with_unfolding_all rfl,
      by decide, hposition⟩
  obtain ⟨hassigned, hdeleted⟩ :=
    get?_of_diverge hordered (by decide) (by decide) hdiverge (.string "cup")
  exact ⟨hdiverge, hassigned.trans hget, hdeleted.trans hget⟩

end Json
end DeclaredApi
