import DeclaredApi.Proofs.Transform.Fits

/-!
# `DeclaredApi.Proofs.Transform.Settles`: what is collected, and collected again

`collected` is what a route collects from an element of an array: the value that it leads to, or
null. A route settles on a value if it collects the same again from what it has collected
(`Settles`). That is rare: what is collected from strictly inside a value is smaller than the value,
so it can be collected from itself only if it is null. So a route that settles takes the value as
it is, or collects from the items of an array, or has collected null (`Settles.cases`).

What fits a value without reshaped places has lost parts of it at most. So it is read as a part of
the value (`Fits.exists_getAt?`), and what is collected from it fits it (`Settles.fits`).
-/

set_option autoImplicit false

namespace DeclaredApi.Json

open DeclaredApi.Path (Step Route position?)

variable {data built child made : Json} {items : List Json} {key : String} {step : Step}
  {steps : List Step} {route rest : Route}

/-! ### What is collected -/

/-- What a route collects from an element of an array. -/
def collected (route : Route) (data : Json) : Json :=
  (data.follow? route).getD .null

/-- The route collects the same again from what it has collected. -/
def Settles (route : Route) (data : Json) : Prop :=
  collected route (collected route data) = collected route data

/-- From an array one value is collected for each item. -/
theorem collected_each_array (rest : Route) (items : List Json) :
    collected (.each [] rest) (.array items) = .array (items.map (collected rest)) :=
  rfl

/-- From anything else null is collected. -/
theorem collected_each_of_ne (rest : Route) (h : ∀ items, data ≠ .array items) :
    collected (.each [] rest) data = .null := by
  cases data with
  | array items => exact absurd rfl (h items)
  | _ => rfl

/-- A route settles on an array if what it goes on with settles on each item. -/
theorem settles_each_array_iff :
    Settles (.each [] rest) (.array items) ↔ ∀ item ∈ items, Settles rest item := by
  rw [Settles, collected_each_array, collected_each_array, List.map_map]
  simp only [array.injEq, List.map_inj_left, Function.comp_apply, Settles]

/-! ### What is collected is no larger -/

/-- Every value has a size. -/
theorem one_le_sizeOf (data : Json) : 1 ≤ sizeOf data := by
  cases data <;> simp

/-- A child is smaller than the value. -/
theorem sizeOf_child? (h : data.child? step = some child) : sizeOf child < sizeOf data := by
  cases data with
  | object members =>
      have hlt := List.sizeOf_lt_of_mem (Dict.mem_of_find? h)
      simp only [object.sizeOf_spec, Prod.mk.sizeOf_spec] at hlt ⊢
      omega
  | array items =>
      obtain ⟨position, -, hitem⟩ := Option.bind_eq_some_iff.1 h
      have hlt := List.sizeOf_lt_of_mem (List.mem_of_getElem? hitem)
      simp only [array.sizeOf_spec]
      omega
  | _ => cases h

/-- Nothing in a value is larger than it. -/
theorem sizeOf_getAt? (h : data.getAt? steps = some child) : sizeOf child ≤ sizeOf data := by
  induction steps generalizing data with
  | nil =>
      cases h
      exact le_rfl
  | cons step rest ih =>
      obtain ⟨next, hnext, h⟩ := Option.bind_eq_some_iff.1 h
      exact (ih h).trans (sizeOf_child? hnext).le

/-- An array does not become larger if none of its items does. -/
theorem sizeOf_map_le {f : Json → Json} (h : ∀ item, sizeOf (f item) ≤ sizeOf item)
    (items : List Json) : sizeOf (items.map f) ≤ sizeOf items := by
  induction items with
  | nil => exact le_rfl
  | cons item rest ih =>
      have hitem := h item
      simp only [List.map_cons, List.cons.sizeOf_spec]
      omega

/-- Nothing that is collected is larger than what it is collected from. -/
theorem sizeOf_collected (route : Route) (data : Json) :
    sizeOf (collected route data) ≤ sizeOf data := by
  induction route generalizing data with
  | place steps =>
      rw [collected, follow?]
      cases hget : data.getAt? steps with
      | none => exact one_le_sizeOf data
      | some found => exact sizeOf_getAt? hget
  | each steps rest ih =>
      rw [collected, follow?]
      cases hget : data.getAt? steps with
      | none => exact one_le_sizeOf data
      | some found =>
          cases found with
          | array items =>
              have hmap := sizeOf_map_le ih items
              have hitems := sizeOf_getAt? hget
              simp only [Option.getD_some, array.sizeOf_spec] at hitems ⊢
              exact (Nat.add_le_add_left hmap 1).trans hitems
          | _ => exact one_le_sizeOf data

/-- A route that settles takes the value, or collects from an array, or has collected null. -/
theorem Settles.cases (h : Settles route data) :
    route = .place [] ∨ (∃ rest items, route = .each [] rest ∧ data = .array items) ∨
      collected route data = .null := by
  by_cases hnull : collected route data = .null
  · exact Or.inr (Or.inr hnull)
  · -- What is collected is collected from itself, so it cannot be found further down.
    have hself : (collected route data).follow? route = some (collected route data) := by
      cases hfollow : (collected route data).follow? route with
      | none =>
          rw [Settles, collected, hfollow] at h
          exact absurd h.symm hnull
      | some again =>
          rw [Settles, collected, hfollow] at h
          rw [← h]
          rfl
    cases route with
    | place steps =>
        cases steps with
        | nil => exact Or.inl rfl
        | cons step steps =>
            obtain ⟨next, hnext, hget⟩ := Option.bind_eq_some_iff.1 hself
            exact absurd (sizeOf_getAt? hget) (Nat.not_le.2 (sizeOf_child? hnext))
    | each steps rest =>
        cases steps with
        | nil =>
            refine Or.inr (Or.inl ?_)
            by_contra hnone
            refine hnull (collected_each_of_ne rest fun items hdata => hnone ?_)
            exact ⟨rest, items, rfl, hdata⟩
        | cons step steps =>
            rw [follow?] at hself
            split at hself
            · next items hget =>
                obtain ⟨next, hnext, hget⟩ := Option.bind_eq_some_iff.1 hget
                have hmap := sizeOf_map_le (sizeOf_collected rest) items
                have hitems := sizeOf_getAt? hget
                have hlt := sizeOf_child? hnext
                have hsize := congrArg sizeOf (Option.some.inj hself)
                simp only [array.sizeOf_spec] at hsize hitems
                have hmap' : sizeOf (items.map fun item => (follow? rest item).getD .null)
                    ≤ sizeOf items := hmap
                omega
            · cases hself

/-! ### What has lost parts -/

/-- The key of a position leads to that position in an array, or nowhere. -/
theorem child?_of_asKey (h : data.child? (.key step.asKey) = some child) :
    data.child? step = some child := by
  cases data with
  | array items =>
      cases step with
      | key name => exact h
      | index position =>
          obtain ⟨found, hfound, hitem⟩ := Option.bind_eq_some_iff.1 h
          have hfound : position? (Step.index position).asKey.toList = some found := hfound
          rw [Step.asKey, String.toList_ofList, Path.position?_toDigits_eq] at hfound
          split at hfound
          · cases hfound
            exact hitem
          · cases hfound
  | object members => exact h
  | _ => cases h

namespace Fits

/-- A step that leads somewhere in a part leads somewhere in the value. -/
theorem exists_child?_step (h : Fits ∅ data built) (hmade : built.child? step = some made) :
    ∃ child, data.child? step = some child ∧ Fits ∅ child made := by
  cases h with
  | reshaped hend => cases hend
  | null => cases hmade
  | whole => exact ⟨made, hmade, .whole⟩
  | members _ hfrom hpart =>
      obtain ⟨child, hchild⟩ := hfrom step.asKey made hmade
      exact ⟨child, child?_of_asKey hchild, hpart step.asKey child made hchild hmade⟩
  | @items _ items built hlength hpart =>
      obtain ⟨position, hposition, hmade⟩ := Option.bind_eq_some_iff.1 hmade
      obtain ⟨child, hitem⟩ := exists_getElem?_of_length_eq hlength hmade
      exact ⟨child, Option.bind_eq_some_iff.2 ⟨position, hposition, hitem⟩,
        hpart position child made hitem hmade⟩

/-- What is read in a value that has lost parts has lost parts. -/
theorem exists_getAt? (h : Fits ∅ data built) (hmade : built.getAt? steps = some made) :
    ∃ held, data.getAt? steps = some held ∧ Fits ∅ held made := by
  induction steps generalizing data built with
  | nil =>
      cases hmade
      exact ⟨data, rfl, h⟩
  | cons step rest ih =>
      obtain ⟨next, hnext, hmade⟩ := Option.bind_eq_some_iff.1 hmade
      obtain ⟨child, hchild, hfits⟩ := h.exists_child?_step hnext
      obtain ⟨held, hheld, hfits⟩ := ih hfits hmade
      exact ⟨held, Option.bind_eq_some_iff.2 ⟨child, hchild, hheld⟩, hfits⟩

/-- What fits null is null. -/
theorem eq_null (h : Fits ∅ .null built) : built = .null := by
  cases h with
  | reshaped hend => cases hend
  | null => rfl
  | whole => rfl
  | members hdata _ _ => cases hdata

/-- An array fits nothing but an array. -/
theorem exists_items (h : Fits ∅ data (.array items)) : ∃ held, data = .array held := by
  cases h with
  | reshaped hend => cases hend
  | whole => exact ⟨items, rfl⟩
  | items _ _ => exact ⟨_, rfl⟩

/-- Where null is collected, it is after parts have been lost. -/
theorem collected_eq_null (h : Fits ∅ data built) (hnull : collected route data = .null) :
    collected route built = .null := by
  cases route with
  | place steps =>
      rw [collected, follow?] at hnull ⊢
      cases hmade : built.getAt? steps with
      | none => rfl
      | some made =>
          obtain ⟨held, hheld, hfits⟩ := h.exists_getAt? hmade
          rw [hheld] at hnull
          obtain rfl : held = .null := hnull
          exact hfits.eq_null
  | each steps rest =>
      rw [collected, follow?] at hnull ⊢
      cases hmade : built.getAt? steps with
      | none => rfl
      | some made =>
          cases made with
          | array items =>
              obtain ⟨held, hheld, hfits⟩ := h.exists_getAt? hmade
              obtain ⟨held, rfl⟩ := hfits.exists_items
              rw [hheld] at hnull
              cases hnull
          | _ => rfl

end Fits

/-- What a route that settles collects after parts have been lost fits what is left. -/
theorem Settles.fits (hsettles : Settles route data) (h : Fits ∅ data built) :
    Fits ∅ built (collected route built) := by
  induction route generalizing data built with
  | place steps =>
      rcases hsettles.cases with hroute | ⟨rest, items, hroute, -⟩ | hnull
      · cases hroute
        exact .whole
      · cases hroute
      · rw [h.collected_eq_null hnull]
        exact .null
  | each steps rest ih =>
      rcases hsettles.cases with hroute | ⟨rest', items, hroute, rfl⟩ | hnull
      · cases hroute
      · cases hroute
        have hitems := settles_each_array_iff.1 hsettles
        by_cases harray : ∃ kept, built = .array kept
        · obtain ⟨kept, rfl⟩ := harray
          have hlength : kept.length = items.length :=
            h.shape (Set.notMem_empty _) rfl
          rw [collected_each_array]
          refine .items (List.length_map _) fun position child made hchild hmade => ?_
          rw [List.getElem?_map, hchild] at hmade
          cases hmade
          obtain ⟨item, hitem⟩ := exists_getElem?_of_length_eq hlength hchild
          exact ih (hitems _ (List.mem_of_getElem? hitem))
            (h.item (Set.notMem_empty _) hitem hchild)
        · -- The array has been lost, and nothing is collected from what is left.
          rw [collected_each_of_ne rest fun kept heq => harray ⟨kept, heq⟩]
          exact .null
      · rw [h.collected_eq_null hnull]
        exact .null

end DeclaredApi.Json
