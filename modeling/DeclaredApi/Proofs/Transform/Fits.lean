import DeclaredApi.Proofs.Transform.Excerpt
import DeclaredApi.Proofs.Transform.Landing

/-!
# `DeclaredApi.Proofs.Transform.Fits`: room in a result for what the data has

While fields of an object are written into a result, the result takes after the object, but it need
not be a part of it: a field that collects from an array puts a list of other values in the place of
that array. `Fits reshaped data built` says what is left of the likeness. `built` may have lost
parts of `data`, with a null or nothing in their place, and may hold an array of `data` as an object
with the positions as its keys; at the `reshaped` places it may hold anything.

Then all that is not below a reshaped place has room: the step lemma `Fits.exists_assignAt` puts a
value at any place of the data that is not strictly below a reshaped one, and what is there then
fits. Where no place is reshaped, there is room for everything.
-/

set_option autoImplicit false

namespace DeclaredApi.Json

variable {data built held value child : Json} {reshaped : Set (List String)}
  {key other : String} {names rest : List String}

/-! ### The shape of a part -/

/-- What has been built of the data is an object, or an array as long as that of the data. -/
def Shape : Json → Json → Prop
  | .object _, data => data.isContainer = true
  | .array built, .array items => built.length = items.length
  | _, _ => False

/-- A container has its own shape. -/
theorem shape_refl (h : data.isContainer = true) : Shape data data := by
  cases data <;> first | rfl | cases h

/-- What has been built has room for every child of the data. -/
theorem Shape.hasRoom (h : Shape built data) (hchild : data.child? (.key key) = some child) :
    built.HasRoom key := by
  cases built with
  | object members => trivial
  | array items =>
      cases data with
      | array items' =>
          obtain ⟨position, hposition, hle⟩ := hasRoom_of_child? hchild
          have hlength : items.length = items'.length := h
          exact ⟨position, hposition, hlength ▸ hle⟩
      | _ => cases h
  | _ => cases h

/-- What has been built of a container is one. -/
theorem Shape.isContainer (h : Shape built data) : built.isContainer = true := by
  cases built <;> first | rfl | cases h

/-- Only a container has a shape to build in. -/
theorem Shape.of_data (h : Shape built data) : data.isContainer = true := by
  cases built with
  | object members => exact h
  | array items => cases data <;> first | rfl | cases h
  | _ => cases h

/-- Putting a child of the data keeps the shape. -/
theorem Shape.putChild (h : Shape built data) (hchild : data.child? (.key key) = some child)
    (made : Json) : Shape (built.putChild key made) data := by
  cases built with
  | object members => exact h
  | array items =>
      cases data with
      | array items' =>
          obtain ⟨position, hposition, hitem⟩ := Option.bind_eq_some_iff.1 hchild
          have hlength : items.length = items'.length := h
          have hlt : position < items'.length := (List.getElem?_eq_some_iff.1 hitem).1
          have hposition : Path.position? key.toList = some position := hposition
          have hne : ¬ position = items.length := by omega
          rw [putChild_array_of_position hposition, if_neg hne]
          exact (List.length_set).trans hlength
      | _ => cases h
  | _ => cases h

/-- Arrays of one length have the same positions. -/
theorem exists_getElem?_of_length_eq {items items' : List Json} {position : Nat}
    (hlength : items.length = items'.length) (hitem : items[position]? = some child) :
    ∃ child', items'[position]? = some child' := by
  have hlt : position < items'.length := hlength ▸ (List.getElem?_eq_some_iff.1 hitem).1
  exact ⟨items'[position], List.getElem?_eq_getElem hlt⟩

/-! ### Room for what the data has -/

/-- What has been built can take up whatever the data has, except below the reshaped places. -/
inductive Fits : Set (List String) → Json → Json → Prop where
  /-- At a reshaped place there may be anything. -/
  | reshaped {reshaped : Set (List String)} {data built : Json} (hend : [] ∈ reshaped) :
      Fits reshaped data built
  /-- An object is made in the place of a null. -/
  | null {reshaped : Set (List String)} {data : Json} : Fits reshaped data .null
  | whole {reshaped : Set (List String)} {data : Json} : Fits reshaped data data
  /-- An object takes up the children of an array or an object under their keys. -/
  | members {reshaped : Set (List String)} {data : Json} {members : Dict Json}
      (hdata : data.isContainer = true)
      (hfrom : ∀ key made, Dict.find? key members = some made →
        ∃ child, data.child? (.key key) = some child)
      (hpart : ∀ key child made, data.child? (.key key) = some child →
        Dict.find? key members = some made → Fits (under (data.slot key) reshaped) child made) :
      Fits reshaped data (.object members)
  /-- An array takes up the items of an array, each at its position. -/
  | items {reshaped : Set (List String)} {items built : List Json}
      (hlength : built.length = items.length)
      (hpart : ∀ position child made, items[position]? = some child →
        built[position]? = some made →
        Fits (under (String.ofList (Nat.toDigits 10 position)) reshaped) child made) :
      Fits reshaped (.array items) (.array built)

namespace Fits

/-- More reshaped places only allow more. -/
theorem mono (h : Fits reshaped data built) {more : Set (List String)} (hmore : reshaped ⊆ more) :
    Fits more data built := by
  induction h generalizing more with
  | reshaped hend => exact .reshaped (hmore hend)
  | null => exact .null
  | whole => exact .whole
  | members hdata hfrom _ ih =>
      refine .members hdata hfrom fun key child made hchild hmade => ?_
      exact ih key child made hchild hmade fun rest hrest => hmore hrest
  | items hlength _ ih =>
      refine .items hlength fun position child made hchild hmade => ?_
      exact ih position child made hchild hmade fun rest hrest => hmore hrest

/-- What has been built where no reshaped place ends. -/
theorem shape (h : Fits reshaped data built) (hopen : [] ∉ reshaped)
    (hbuilt : built.isContainer = true) : Shape built data := by
  cases h with
  | reshaped hend => exact absurd hend hopen
  | null => cases hbuilt
  | whole => exact shape_refl hbuilt
  | members hdata _ _ => exact hdata
  | items hlength _ => exact hlength

/-- A child that was built is one of the data, and fits it. -/
theorem exists_child? (h : Fits reshaped data built) (hopen : [] ∉ reshaped) {made : Json}
    (hmade : built.child? (.key key) = some made) :
    ∃ child, data.child? (.key key) = some child ∧
      Fits (under (data.slot key) reshaped) child made := by
  cases h with
  | reshaped hend => exact absurd hend hopen
  | null => cases hmade
  | whole => exact ⟨made, hmade, .whole⟩
  | members _ hfrom hpart =>
      obtain ⟨child, hchild⟩ := hfrom key made hmade
      exact ⟨child, hchild, hpart key child made hchild hmade⟩
  | @items _ items built hlength hpart =>
      obtain ⟨position, hposition, hmade⟩ := Option.bind_eq_some_iff.1 hmade
      obtain ⟨child, hitem⟩ := exists_getElem?_of_length_eq hlength hmade
      refine ⟨child, ?_, ?_⟩
      · rwa [child?_array_of_position hposition]
      · rw [slot_array_of_position hposition]
        exact hpart position child made hitem hmade

/-- So is an element, at the same position. -/
theorem item {items built : List Json} (h : Fits reshaped (.array items) (.array built))
    (hopen : [] ∉ reshaped) {position : Nat} {made : Json}
    (hchild : items[position]? = some child) (hmade : built[position]? = some made) :
    Fits (under (String.ofList (Nat.toDigits 10 position)) reshaped) child made := by
  cases h with
  | reshaped hend => exact absurd hend hopen
  | whole =>
      rw [hchild] at hmade
      cases hmade
      exact .whole
  | items _ hpart => exact hpart position child made hchild hmade

/-- An object that is made fits what has children. -/
theorem empty (h : data.isContainer = true) : Fits reshaped data (.object []) := by
  refine .members h ?_ ?_
  · intro key made hmade
    cases hmade
  · intro key child made _ hmade
    cases hmade

/-- The place for a child that has children is an array or an object, and fits it. -/
theorem parentOrNew {made : Option Json} (h : ∀ built, made = some built → Fits reshaped data built)
    (hopen : [] ∉ reshaped) (hdata : data.isContainer = true) :
    Fits reshaped data (Json.parentOrNew made) ∧ (Json.parentOrNew made).isContainer = true := by
  cases made with
  | none => exact ⟨empty hdata, rfl⟩
  | some built =>
      cases h built rfl with
      | reshaped hend => exact absurd hend hopen
      | null => exact ⟨empty hdata, rfl⟩
      | whole =>
          rw [parentOrNew_some hdata]
          exact ⟨.whole, hdata⟩
      | members hdata hfrom hpart => exact ⟨.members hdata hfrom hpart, rfl⟩
      | items hlength hpart => exact ⟨.items hlength hpart, rfl⟩

/-- A child that fits can be put into its slot. -/
theorem putChild (h : Fits reshaped data built) (hopen : [] ∉ reshaped)
    (hbuilt : built.isContainer = true) (hchild : data.child? (.key key) = some child)
    {more : Set (List String)} (hmore : reshaped ⊆ more) {made : Json}
    (hmade : Fits (under (data.slot key) more) child made) :
    Fits more data (built.putChild key made) := by
  have hshape := h.shape hopen hbuilt
  have hother : ∀ other found, built.child? (.key other) = some found →
      ∃ held, data.child? (.key other) = some held ∧
        Fits (under (data.slot other) more) held found := by
    intro other found hfound
    obtain ⟨held, hheld, hfits⟩ := h.exists_child? hopen hfound
    exact ⟨held, hheld, hfits.mono fun rest hrest => hmore hrest⟩
  cases built with
  | object members =>
      have hcases : ∀ other found, Dict.find? other (Dict.insert key made members) = some found →
          ∃ held, data.child? (.key other) = some held ∧
            Fits (under (data.slot other) more) held found := by
        intro other found hfound
        rw [Dict.find?_insert] at hfound
        split at hfound
        · next heq =>
            subst heq
            cases hfound
            exact ⟨child, hchild, hmade⟩
        · exact hother other found hfound
      refine .members hshape ?_ ?_
      · intro other found hfound
        obtain ⟨held, hheld, -⟩ := hcases other found hfound
        exact ⟨held, hheld⟩
      · intro other held found hheld hfound
        obtain ⟨held', hheld', hfits⟩ := hcases other found hfound
        rw [hheld] at hheld'
        cases hheld'
        exact hfits
  | array built =>
      cases data with
      | array items =>
          obtain ⟨position, hposition, hitem⟩ := Option.bind_eq_some_iff.1 hchild
          have hlength : built.length = items.length := hshape
          have hlt : position < items.length := (List.getElem?_eq_some_iff.1 hitem).1
          have hposition : Path.position? key.toList = some position := hposition
          -- The built array is as long as that of the data, so no element is appended.
          have hne : ¬ position = built.length := by omega
          rw [slot_array_of_position hposition] at hmade
          rw [putChild_array_of_position hposition, if_neg hne]
          refine .items ((List.length_set).trans hlength) ?_
          intro place held found hheld hfound
          by_cases hplace : position = place
          · subst hplace
            rw [List.getElem?_set_self (hlength ▸ hlt)] at hfound
            rw [hitem] at hheld
            cases hfound
            cases hheld
            exact hmade
          · rw [List.getElem?_set_ne hplace] at hfound
            exact (h.item hopen hheld hfound).mono fun rest hrest => hmore hrest
      | _ => cases hshape
  | _ => cases hbuilt

/-- What fits at a place that the data has can be put there, if no reshaped place is strictly
above. -/
theorem exists_assignAt (h : Fits reshaped data built)
    (hbuilt : [] ∉ reshaped → built.isContainer = true)
    (hget : data.getAt? (names.map .key) = some held)
    (habove : ∀ place ∈ reshaped, place <+: data.place names → place = data.place names)
    {more : Set (List String)} (hmore : reshaped ⊆ more)
    (hvalue : Fits {rest | data.place names ++ rest ∈ more} held value) :
    ∃ written, assignAt value (names.map .key) built = (written, none) ∧
      Fits more data written ∧ (names ≠ [] → written.isContainer = true) := by
  induction names generalizing reshaped data built more with
  | nil =>
      cases hget
      exact ⟨value, rfl, hvalue, fun hnames => absurd rfl hnames⟩
  | cons key rest ih =>
      obtain ⟨child, hchild, hget⟩ := Option.bind_eq_some_iff.1 hget
      rw [place_cons_of_child? hchild] at habove hvalue
      -- A reshaped place that ended here would be strictly above.
      have hopen : [] ∉ reshaped := fun hend =>
        absurd (habove [] hend List.nil_prefix) (List.cons_ne_nil _ _).symm
      have hshape := h.shape hopen (hbuilt hopen)
      have hbelow : ∀ made, built.child? (.key key) = some made →
          Fits (under (data.slot key) reshaped) child made := by
        intro made hmade
        obtain ⟨child', hchild', hfits⟩ := h.exists_child? hopen hmade
        rw [hchild] at hchild'
        cases hchild'
        exact hfits
      have hwritten : ∃ written,
          assignAt value (rest.map .key) (Json.parentOrNew (built.child? (.key key)))
            = (written, none) ∧ Fits (under (data.slot key) more) child written := by
        by_cases hrest : rest = []
        · -- The path ends at the child, so what was there does not count.
          subst hrest
          cases hget
          exact ⟨value, rfl, hvalue⟩
        · -- It goes on below the child, where no reshaped place is strictly above it either.
          have hcontainer : child.isContainer = true :=
            isContainer_of_getAt? (by simpa using hrest) hget
          have habove' : ∀ place ∈ under (data.slot key) reshaped, place <+: child.place rest →
              place = child.place rest := by
            intro place hplace hprefix
            exact (List.cons.inj (habove _ hplace (List.cons_prefix_cons.2 ⟨rfl, hprefix⟩))).2
          have hopen' : [] ∉ under (data.slot key) reshaped := by
            intro hend
            have hnil := habove' [] hend List.nil_prefix
            have hlength := congrArg List.length hnil
            rw [length_place] at hlength
            exact hrest (List.length_eq_zero_iff.1 hlength.symm)
          obtain ⟨hparent, hparent'⟩ := parentOrNew hbelow hopen' hcontainer
          have hmore' : under (data.slot key) reshaped ⊆ under (data.slot key) more :=
            fun _ hmem => hmore hmem
          obtain ⟨written, hassign, hfits, -⟩ :=
            ih hparent (fun _ => hparent') hget habove' hmore' hvalue
          exact ⟨written, hassign, hfits⟩
      obtain ⟨written, hassign, hfits⟩ := hwritten
      have hroom := hshape.hasRoom hchild
      have hput := h.putChild hopen (hbuilt hopen) hchild hmore hfits
      refine ⟨built.putChild key written, assignAt_cons_iff.2 ⟨hroom, written, hassign, rfl⟩,
        hput, fun _ => (hroom.putChild key written).isContainer⟩

end Fits

end DeclaredApi.Json
