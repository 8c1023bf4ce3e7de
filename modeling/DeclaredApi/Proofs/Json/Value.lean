import DeclaredApi.Json.Basic
import DeclaredApi.Proofs.Dict
import DeclaredApi.Proofs.Json.RoundTrip

/-!
# `DeclaredApi.Proofs.Json.Value`: values read back from their text

`ofText?_render`: a value whose objects are sorted and whose doubles are read back (`ReadsBack`)
is read back from its own text, unless it opens more containers inside each other than a text may
(`Json.depth`). A deeper value is not read at all (`value?_reread_eq_none`), and one with a double
that is not read back is not read as itself (`readsBack_of_value?`). Every value that is read is
sorted (`ordered_of_value?`), so the sortedness is no burden on values that come from texts, and
it is no deeper than a text may be (`exists_ofText?_eq_some_iff`). Two values with one text are
one value at every depth (`document_injective` with `Document.render_injective`).
-/

set_option autoImplicit false

namespace DeclaredApi.Json

/-! ### Depth -/

mutual

/-- How many containers stand inside each other in a value. -/
def depth : Json → Nat
  | .array items => depthItems items + 1
  | .object members => depthMembers members + 1
  | _ => 0

/-- The greatest depth of the items of an array. -/
def depthItems : List Json → Nat
  | [] => 0
  | item :: rest => max item.depth (depthItems rest)

/-- The greatest depth of the members of an object. -/
def depthMembers : List (String × Json) → Nat
  | [] => 0
  | (_, value) :: rest => max value.depth (depthMembers rest)

end

/-! ### From a value to its document and back -/

mutual

/-- A sorted value is the value of its own document, where its depth is allowed. -/
theorem value?_document (j : Json) {room : Nat} (hroom : j.depth ≤ room) (h : j.Ordered) :
    Document.value? room j.document = some j := by
  cases j with
  | array items =>
      -- A container needs room for itself, and its items get one less.
      rw [depth] at hroom
      obtain ⟨room, rfl⟩ : ∃ k, room = k + 1 := ⟨room - 1, by omega⟩
      rw [Ordered] at h
      rw [document, Document.value?, itemValues?_itemDocuments items (by omega) h]
      rfl
  | object members =>
      rw [depth] at hroom
      obtain ⟨room, rfl⟩ : ∃ k, room = k + 1 := ⟨room - 1, by omega⟩
      rw [Ordered] at h
      rw [document, Document.value?, memberValues?_memberDocuments members (by omega) h.2,
        Option.map_some, Dict.ofList_eq_self h.1]
  | _ => rfl

/-- Sorted items are the values of their documents. -/
theorem itemValues?_itemDocuments (items : List Json) {room : Nat}
    (hroom : depthItems items ≤ room) (h : OrderedItems items) :
    itemValues? room (itemDocuments items) = some items := by
  match items with
  | [] => rfl
  | item :: rest =>
      rw [depthItems] at hroom
      rw [OrderedItems] at h
      rw [itemDocuments, itemValues?, value?_document item (by omega) h.1,
        itemValues?_itemDocuments rest (by omega) h.2]
      rfl

/-- Sorted members are the values of their documents, under the same names. -/
theorem memberValues?_memberDocuments (members : List (String × Json)) {room : Nat}
    (hroom : depthMembers members ≤ room) (h : OrderedMembers members) :
    memberValues? room (memberDocuments members) = some members := by
  match members with
  | [] => rfl
  | (name, value) :: rest =>
      rw [depthMembers] at hroom
      rw [OrderedMembers] at h
      rw [memberDocuments, memberValues?, value?_document value (by omega) h.1,
        memberValues?_memberDocuments rest (by omega) h.2]
      rfl

end

mutual

/-- A value that is deeper than allowed is not read from its text. -/
theorem value?_reread_eq_none (j : Json) {room : Nat} (h : room < j.depth) :
    Document.value? room j.document.reread = none := by
  cases j with
  | array items =>
      cases room with
      | zero => rfl
      | succ room =>
          rw [depth] at h
          rw [document, Document.reread, Document.value?,
            itemValues?_rereadItems_eq_none items (by omega)]
          rfl
  | object members =>
      cases room with
      | zero => rfl
      | succ room =>
          rw [depth] at h
          rw [document, Document.reread, Document.value?,
            memberValues?_rereadMembers_eq_none members (by omega)]
          rfl
  | _ => cases h

/-- One item that is too deep is enough for an array. -/
theorem itemValues?_rereadItems_eq_none (items : List Json) {room : Nat}
    (h : room < depthItems items) :
    itemValues? room (Document.rereadItems (itemDocuments items)) = none := by
  match items with
  | [] => cases h
  | item :: rest =>
      rw [depthItems, lt_max_iff] at h
      rw [itemDocuments, Document.rereadItems, itemValues?]
      rcases h with h | h
      · rw [value?_reread_eq_none item h]
        rfl
      · rw [itemValues?_rereadItems_eq_none rest h]
        cases Document.value? room item.document.reread <;> rfl

/-- One member that is too deep is enough for an object. -/
theorem memberValues?_rereadMembers_eq_none (members : List (String × Json)) {room : Nat}
    (h : room < depthMembers members) :
    memberValues? room (Document.rereadMembers (memberDocuments members)) = none := by
  match members with
  | [] => cases h
  | (name, value) :: rest =>
      rw [depthMembers, lt_max_iff] at h
      rw [memberDocuments, Document.rereadMembers, memberValues?]
      rcases h with h | h
      · rw [value?_reread_eq_none value h]
        rfl
      · rw [memberValues?_rereadMembers_eq_none rest h]
        cases Document.value? room value.document.reread <;> rfl

end

/-- Every double in the value is read back from its text. -/
def ReadsBack (j : Json) : Prop :=
  j.document.ReadsBack

/-- A sorted value is read back from its text, where its depth is allowed and its doubles are
read back. -/
theorem ofText?_render {j : Json} (hback : j.ReadsBack) (hdepth : j.depth ≤ maxDepth)
    (h : j.Ordered) : ofText? j.render = some j := by
  rw [ofText?, render, Document.read?_render, Document.reread_eq_self_iff.mpr hback]
  exact value?_document j hdepth h

/-- The members that are read keep their names. -/
theorem keys_of_memberValues? {members : List (String × Json)} {room : Nat}
    {entries : List (String × Json)}
    (h : memberValues? room (Document.rereadMembers (memberDocuments members)) = some entries) :
    Dict.keys entries = Dict.keys members := by
  induction members generalizing entries with
  | nil =>
      cases h
      rfl
  | cons member rest ih =>
      obtain ⟨name, value⟩ := member
      simp only [memberDocuments, Document.rereadMembers, memberValues?, Option.bind_eq_bind,
        Option.bind_eq_some_iff, Option.pure_def, Option.some.injEq] at h
      obtain ⟨_, rfl, found, -, others, hothers, rfl⟩ := h
      exact congrArg (name :: ·) (ih hothers)

mutual

/-- Only a tree that is read back as it is gives the value again. -/
theorem reread_document_of_value? (j : Json) {room : Nat} (h : j.Ordered)
    (hvalue : Document.value? room j.document.reread = some j) :
    j.document.reread = j.document := by
  cases j with
  | number n =>
      obtain ⟨found, hfound, heq⟩ := Option.map_eq_some_iff.1 hvalue
      cases heq
      exact congrArg Document.number hfound
  | array items =>
      cases room with
      | zero => cases hvalue
      | succ room =>
          rw [Ordered] at h
          obtain ⟨found, hfound, heq⟩ := Option.map_eq_some_iff.1 hvalue
          cases heq
          exact congrArg Document.array (rereadItems_of_itemValues? items h hfound)
  | object members =>
      cases room with
      | zero => cases hvalue
      | succ room =>
          rw [Ordered] at h
          obtain ⟨found, hfound, heq⟩ := Option.map_eq_some_iff.1 hvalue
          -- The names are sorted, so the map of what is read is what is read.
          have hsorted : Dict.Sorted found :=
            Dict.sorted_of_keys_eq (keys_of_memberValues? hfound).symm h.1
          rw [Dict.ofList_eq_self hsorted] at heq
          cases heq
          exact congrArg Document.object (rereadMembers_of_memberValues? members h.2 hfound)
  | _ => rfl

/-- Only items that are read back as they are give the items again. -/
theorem rereadItems_of_itemValues? (items : List Json) {room : Nat} (h : OrderedItems items)
    (hvalues : itemValues? room (Document.rereadItems (itemDocuments items)) = some items) :
    Document.rereadItems (itemDocuments items) = itemDocuments items := by
  match items with
  | [] => rfl
  | item :: rest =>
      rw [OrderedItems] at h
      simp only [itemDocuments, Document.rereadItems, itemValues?, Option.bind_eq_bind,
        Option.bind_eq_some_iff, Option.pure_def, Option.some.injEq, List.cons.injEq] at hvalues
      obtain ⟨found, hitem, others, hrest, hfound, hothers⟩ := hvalues
      rw [hfound] at hitem
      rw [hothers] at hrest
      rw [itemDocuments, Document.rereadItems, reread_document_of_value? item h.1 hitem,
        rereadItems_of_itemValues? rest h.2 hrest]

/-- Only members that are read back as they are give the members again. -/
theorem rereadMembers_of_memberValues? (members : List (String × Json)) {room : Nat}
    (h : OrderedMembers members)
    (hvalues : memberValues? room (Document.rereadMembers (memberDocuments members))
      = some members) :
    Document.rereadMembers (memberDocuments members) = memberDocuments members := by
  match members with
  | [] => rfl
  | (name, value) :: rest =>
      rw [OrderedMembers] at h
      simp only [memberDocuments, Document.rereadMembers, memberValues?, Option.bind_eq_bind,
        Option.bind_eq_some_iff, Option.pure_def, Option.some.injEq, List.cons.injEq,
        Prod.mk.injEq] at hvalues
      obtain ⟨_, -, found, hvalue, others, hrest, ⟨-, hfound⟩, hothers⟩ := hvalues
      rw [hfound] at hvalue
      rw [hothers] at hrest
      rw [memberDocuments, Document.rereadMembers, reread_document_of_value? value h.1 hvalue,
        rereadMembers_of_memberValues? rest h.2 hrest]

end

/-- A sorted value is read from its own text as itself only if its doubles are read back. -/
theorem readsBack_of_value? {j : Json} {room : Nat} (h : j.Ordered)
    (hvalue : Document.value? room j.document.reread = some j) : j.ReadsBack :=
  Document.reread_eq_self_iff.mp (reread_document_of_value? j h hvalue)

mutual

/-- Two values with one document are one value. -/
theorem document_injective (j j' : Json) (h : j.document = j'.document) : j = j' := by
  cases j with
  | array items =>
      cases j' with
      | array items' =>
          have hitems := itemDocuments_injective items items' (Document.array.inj h)
          rw [hitems]
      | _ => cases h
  | object members =>
      cases j' with
      | object members' =>
          have hmembers := memberDocuments_injective members members' (Document.object.inj h)
          rw [hmembers]
      | _ => cases h
  | _ =>
      cases j' with
      | array _ => cases h
      | object _ => cases h
      | _ => cases h <;> rfl

/-- Two lists of values with the same documents are one list. -/
theorem itemDocuments_injective (items items' : List Json)
    (h : itemDocuments items = itemDocuments items') : items = items' := by
  match items, items' with
  | [], [] => rfl
  | [], _ :: _ => cases h
  | _ :: _, [] => cases h
  | item :: rest, item' :: rest' =>
      obtain ⟨hitem, hrest⟩ := List.cons.inj h
      rw [document_injective item item' hitem, itemDocuments_injective rest rest' hrest]

/-- Two lists of members with the same documents are one list. -/
theorem memberDocuments_injective (members members' : List (String × Json))
    (h : memberDocuments members = memberDocuments members') : members = members' := by
  match members, members' with
  | [], [] => rfl
  | [], _ :: _ => cases h
  | _ :: _, [] => cases h
  | (name, value) :: rest, (name', value') :: rest' =>
      obtain ⟨hmember, hrest⟩ := List.cons.inj h
      obtain ⟨hname, hvalue⟩ := Prod.mk.inj hmember
      rw [Option.some.inj hname, document_injective value value' hvalue,
        memberDocuments_injective rest rest' hrest]

end

/-- Two values with one text are one value. -/
theorem render_injective {j j' : Json} (h : j.render = j'.render) : j = j' :=
  document_injective j j' (Document.render_injective h)

/-! ### Values that are read are sorted -/

/-- Items are sorted if each of them is. -/
theorem orderedItems_iff (items : List Json) :
    OrderedItems items ↔ ∀ item ∈ items, item.Ordered := by
  induction items with
  | nil => simp [OrderedItems]
  | cons item rest ih => rw [OrderedItems, ih, List.forall_mem_cons]

/-- The values of members are sorted if each of them is. -/
theorem orderedMembers_iff (members : List (String × Json)) :
    OrderedMembers members ↔ ∀ member ∈ members, member.2.Ordered := by
  induction members with
  | nil => simp [OrderedMembers]
  | cons member rest ih =>
      obtain ⟨name, value⟩ := member
      rw [OrderedMembers, ih, List.forall_mem_cons]

/-- The map of sorted values under names is a sorted value. -/
theorem ordered_ofMembers {members : List (String × Json)}
    (h : ∀ member ∈ members, member.2.Ordered) : (ofMembers members).Ordered := by
  rw [ofMembers, Ordered]
  refine ⟨Dict.sorted_ofList members, (orderedMembers_iff _).2 fun member hmem => ?_⟩
  exact h member (Dict.mem_ofList_imp hmem)

mutual

/-- Every value that is read from a document is sorted. -/
theorem ordered_of_value? (d : Document) {room : Nat} {j : Json}
    (h : Document.value? room d = some j) : j.Ordered := by
  cases d with
  | number n =>
      obtain ⟨n, -, rfl⟩ := Option.map_eq_some_iff.1 h
      trivial
  | string s =>
      obtain ⟨s, -, rfl⟩ := Option.map_eq_some_iff.1 h
      trivial
  | array items =>
      cases room with
      | zero => cases h
      | succ room =>
          obtain ⟨values, hvalues, rfl⟩ := Option.map_eq_some_iff.1 h
          exact orderedItems_of_itemValues? items hvalues
  | object members =>
      -- Without room no container is read, and the members of one make a map.
      cases room with
      | zero => cases h
      | succ room =>
          obtain ⟨entries, hentries, rfl⟩ := Option.map_eq_some_iff.1 h
          exact ordered_ofMembers (ordered_of_memberValues? members hentries)
  | _ =>
      cases h
      trivial

/-- All items that are read are sorted. -/
theorem orderedItems_of_itemValues? (items : List Document) {room : Nat} {values : List Json}
    (h : itemValues? room items = some values) : OrderedItems values := by
  match items with
  | [] =>
      cases h
      trivial
  | item :: rest =>
      simp only [itemValues?, Option.bind_eq_bind, Option.bind_eq_some_iff, Option.pure_def,
        Option.some.injEq] at h
      obtain ⟨value, hvalue, others, hothers, rfl⟩ := h
      exact ⟨ordered_of_value? item hvalue, orderedItems_of_itemValues? rest hothers⟩

/-- The values of all members that are read are sorted. -/
theorem ordered_of_memberValues? (members : List (Option String × Document)) {room : Nat}
    {entries : List (String × Json)} (h : memberValues? room members = some entries) :
    ∀ entry ∈ entries, entry.2.Ordered := by
  match members with
  | [] =>
      cases h
      simp
  | (name, d) :: rest =>
      simp only [memberValues?, Option.bind_eq_bind, Option.bind_eq_some_iff, Option.pure_def,
        Option.some.injEq] at h
      obtain ⟨name, -, value, hvalue, others, hothers, rfl⟩ := h
      rw [List.forall_mem_cons]
      exact ⟨ordered_of_value? d hvalue, ordered_of_memberValues? rest hothers⟩

end

/-- Every value of a text is sorted. -/
theorem ordered_of_ofText? {s : String} {j : Json} (h : ofText? s = some j) : j.Ordered := by
  obtain ⟨d, -, hvalue⟩ := Option.bind_eq_some_iff.1 h
  exact ordered_of_value? d hvalue

/-! ### Values that are read are no deeper than allowed -/

/-- No member is deeper than the deepest. -/
theorem depthMembers_le_iff {members : List (String × Json)} {n : Nat} :
    depthMembers members ≤ n ↔ ∀ member ∈ members, member.2.depth ≤ n := by
  induction members with
  | nil => simp [depthMembers]
  | cons member rest ih =>
      obtain ⟨name, value⟩ := member
      rw [depthMembers, max_le_iff, ih, List.forall_mem_cons]

mutual

/-- Every value that is read from a document is no deeper than allowed. -/
theorem depth_le_of_value? (d : Document) {room : Nat} {j : Json}
    (h : Document.value? room d = some j) : j.depth ≤ room := by
  cases d with
  | number n =>
      obtain ⟨n, -, rfl⟩ := Option.map_eq_some_iff.1 h
      exact Nat.zero_le room
  | string s =>
      obtain ⟨s, -, rfl⟩ := Option.map_eq_some_iff.1 h
      exact Nat.zero_le room
  | array items =>
      cases room with
      | zero => cases h
      | succ room =>
          obtain ⟨values, hvalues, rfl⟩ := Option.map_eq_some_iff.1 h
          exact Nat.succ_le_succ (depthItems_le_of_itemValues? items hvalues)
  | object members =>
      cases room with
      | zero => cases h
      | succ room =>
          obtain ⟨entries, hentries, rfl⟩ := Option.map_eq_some_iff.1 h
          have hmembers := depth_le_of_memberValues? members hentries
          exact Nat.succ_le_succ (depthMembers_le_iff.2 fun member hmem =>
            hmembers member (Dict.mem_ofList_imp hmem))
  | _ =>
      cases h
      exact Nat.zero_le room

/-- No item that is read is deeper than allowed. -/
theorem depthItems_le_of_itemValues? (items : List Document) {room : Nat} {values : List Json}
    (h : itemValues? room items = some values) : depthItems values ≤ room := by
  match items with
  | [] =>
      cases h
      exact Nat.zero_le room
  | item :: rest =>
      simp only [itemValues?, Option.bind_eq_bind, Option.bind_eq_some_iff, Option.pure_def,
        Option.some.injEq] at h
      obtain ⟨value, hvalue, others, hothers, rfl⟩ := h
      exact max_le (depth_le_of_value? item hvalue) (depthItems_le_of_itemValues? rest hothers)

/-- No value of a member that is read is deeper than allowed. -/
theorem depth_le_of_memberValues? (members : List (Option String × Document)) {room : Nat}
    {entries : List (String × Json)} (h : memberValues? room members = some entries) :
    ∀ entry ∈ entries, entry.2.depth ≤ room := by
  match members with
  | [] =>
      cases h
      simp
  | (name, d) :: rest =>
      simp only [memberValues?, Option.bind_eq_bind, Option.bind_eq_some_iff, Option.pure_def,
        Option.some.injEq] at h
      obtain ⟨name, -, value, hvalue, others, hothers, rfl⟩ := h
      rw [List.forall_mem_cons]
      exact ⟨depth_le_of_value? d hvalue, depth_le_of_memberValues? rest hothers⟩

end

/-- The values of texts are sorted, and no deeper than a text may be. Every such value has a text
if its doubles are read back. -/
theorem exists_ofText?_eq_some_iff {j : Json} (hback : j.ReadsBack) :
    (∃ s, ofText? s = some j) ↔ j.Ordered ∧ j.depth ≤ maxDepth := by
  constructor
  · rintro ⟨s, h⟩
    obtain ⟨d, -, hvalue⟩ := Option.bind_eq_some_iff.1 h
    exact ⟨ordered_of_ofText? h, depth_le_of_value? d hvalue⟩
  · rintro ⟨hordered, hdepth⟩
    exact ⟨j.render, ofText?_render hback hdepth hordered⟩

end DeclaredApi.Json
