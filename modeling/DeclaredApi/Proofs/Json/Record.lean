import DeclaredApi.Json.Record
import DeclaredApi.Proofs.Json.Value
import Mathlib.Data.List.Forall2

/-!
# `DeclaredApi.Proofs.Json.Record`: decoders and what is written for their values

A typed value is read from many documents: a record may be an object or an array, members that
are no field are passed over, names may repeat in an object of any values. One of these documents
is the one that is written for the value. A decoder is `Stable` under a way to write its values
when it reads every value it ever reads from what is written for it, with no more room than it
had. That last part matters: nothing that is written opens more containers than what was read.

The decoders that others are made of are stable (`Stable.string`, `Stable.named`, `Stable.value`,
`Stable.map`), and a list is read item by item (`Stable.list`).
-/

set_option autoImplicit false

namespace DeclaredApi.Json

variable {α β : Type}

/-! ### Lists that are read item by item -/

/-- A list is read where each of its items is. -/
theorem mapM_eq_some_iff {read : β → Option α} {items : List β} {values : List α} :
    items.mapM read = some values ↔
      List.Forall₂ (fun item value => read item = some value) items values := by
  induction items generalizing values with
  | nil =>
      rw [List.mapM_nil, List.forall₂_nil_left_iff]
      exact ⟨fun h => (Option.some.inj h).symm, fun h => congrArg some h.symm⟩
  | cons item rest ih =>
      rw [List.mapM_cons, List.forall₂_cons_left_iff]
      constructor
      · intro h
        obtain ⟨first, hfirst, h⟩ := Option.bind_eq_some_iff.1 h
        obtain ⟨others, hothers, h⟩ := Option.bind_eq_some_iff.1 h
        exact ⟨first, others, hfirst, ih.1 hothers, (Option.some.inj h).symm⟩
      · rintro ⟨first, others, hfirst, hothers, rfl⟩
        rw [hfirst, ih.2 hothers]
        rfl

/-- A list is read as itself where each of its items is. -/
theorem mapM_eq_self_iff {read : α → Option α} {items : List α} :
    items.mapM read = some items ↔ ∀ item ∈ items, read item = some item :=
  mapM_eq_some_iff.trans List.forall₂_same

/-- Items that are each read back are read back as a list. -/
theorem mapM_map_eq_some {read : β → Option α} {write : α → β} {items : List α}
    (h : ∀ item ∈ items, read (write item) = some item) :
    (items.map write).mapM read = some items := by
  rw [List.mapM_map]
  exact mapM_eq_self_iff.2 h

/-- Everything in a list that was read was read from some item. -/
theorem exists_of_mem_mapM {read : β → Option α} {items : List β} {values : List α}
    (h : items.mapM read = some values) {value : α} (hmem : value ∈ values) :
    ∃ item ∈ items, read item = some value := by
  obtain ⟨position, hposition, rfl⟩ := List.getElem_of_mem hmem
  obtain ⟨hlength, hread⟩ := List.forall₂_iff_get.1 (mapM_eq_some_iff.1 h)
  have hitem : position < items.length := hlength ▸ hposition
  exact ⟨items[position], List.getElem_mem hitem, hread position hitem hposition⟩

/-- A list with an item that cannot be read is not read. -/
theorem mapM_eq_none {read : β → Option α} {items : List β} {item : β}
    (hmem : item ∈ items) (h : read item = none) : items.mapM read = none := by
  induction items with
  | nil => cases hmem
  | cons first rest ih =>
      rw [List.mapM_cons]
      rcases List.mem_cons.1 hmem with rfl | hmem
      · rw [h]
        rfl
      · rw [ih hmem]
        cases read first <;> rfl

/-! ### Integers -/

/-- A signed integer is decoded from its number. -/
theorem int64_ofInt64 (room : Nat) (n : Int64) :
    Decoder.int64 room (.number (some (.ofInt64 n))) = some n := by
  have hlt := n.toInt_lt
  rw [Json.Number.ofInt64, Decoder.int64, if_pos (by omega), Int64.ofInt_toInt]

/-- A natural number is decoded from its number. -/
theorem uint64_ofUInt64 (room : Nat) (n : UInt64) :
    Decoder.uint64 room (.number (some (.ofUInt64 n))) = some n := by
  rw [Json.Number.ofUInt64, Decoder.uint64, if_pos (by omega), Int.toNat_natCast,
    UInt64.ofNat_toNat]

/-! ### Stable decoders -/

/-- The fields of a record may open one container less than the record. -/
theorem room_of_fields? {names : List String} {room : Nat} {d : Document} {record : Fields}
    (h : fields? names room d = some record) : room = record.room + 1 := by
  cases room with
  | zero => cases d <;> cases h
  | succ room =>
      cases d with
      | object members =>
          obtain ⟨found, -, rfl⟩ := Option.map_eq_some_iff.1 h
          rfl
      | array items =>
          rw [fields?] at h
          split at h
          · cases h
            rfl
          · cases h
      | _ => cases h

/-- Every value that is read is read again, with the same room, from what is written for it. -/
def Decoder.Stable (decode : Decoder α) (encode : α → Document) : Prop :=
  ∀ room d value, decode room d = some value → decode room (encode value) = some value

namespace Decoder.Stable

/-- A string is read from its own document. -/
theorem string : Stable Decoder.string Document.ofString :=
  fun _ _ _ _ => rfl

/-- A natural number is read from its own document. -/
theorem uint64 : Stable Decoder.uint64 fun n => .number (some (.ofUInt64 n)) :=
  fun room _ n _ => uint64_ofUInt64 room n

/-- A name is read back when the table finds it by its word. -/
theorem named {names : List (String × α)} {text : α → String}
    (h : ∀ value, Dict.find? (text value) names = some value) :
    Stable (Decoder.named names) fun value => .ofString (text value) :=
  fun _ _ value _ => h value

/-- A JSON value that was read is sorted, and it is no deeper than there was room. -/
theorem value : Stable Decoder.value Json.document :=
  fun _ d j h => value?_document j (depth_le_of_value? d h) (ordered_of_value? d h)

/-- A map of values was read from an object, so it is read from its own again. -/
theorem map : Stable Decoder.map fun entries => Json.document (.object entries) := by
  intro room d entries h
  -- The map is what the document means.
  obtain ⟨members, rfl, hvalue⟩ : ∃ members, d = .object members ∧
      Document.value? room (.object members) = some (.object entries) := by
    unfold Decoder.map at h
    split at h
    · next members =>
        split at h
        · next heq =>
            cases h
            exact ⟨members, rfl, heq⟩
        · cases h
    · cases h
  have hback := Stable.value room _ _ hvalue
  show Decoder.map room (.object (memberDocuments entries)) = some entries
  change Document.value? room (.object (memberDocuments entries)) = _ at hback
  rw [Decoder.map, hback]

/-- The items of a list are read back one by one. -/
theorem list {decode : Decoder α} {encode : α → Document} (h : Stable decode encode) :
    Stable (Decoder.list decode) fun items => .array (items.map encode) := by
  intro room d items hitems
  unfold Decoder.list at hitems
  split at hitems
  · next room documents =>
      refine mapM_map_eq_some fun item hmem => ?_
      obtain ⟨document, -, hread⟩ := exists_of_mem_mapM hitems hmem
      exact h room document item hread
  · cases hitems

end Decoder.Stable
end DeclaredApi.Json
