import DeclaredApi.Proofs.Path.Leaves
import DeclaredApi.Proofs.Transform.Step

/-!
# `DeclaredApi.Proofs.Transform.Leaves`: a pipeline makes nothing up

`leaves_pipeline_subset`: every leaf of what a pipeline makes of a value is null or a leaf of that
value. It holds for every transform and every value, also where a wildcard collects values, where
an array grows, where rules move values inside nested arrays, and where a step fails and is passed
over.

A step reads, writes and deletes at paths, and each of these keeps what a value is drawn from
(`DrawnFrom`). So extraction does (`DrawnFrom.extract`), a move does (`DrawnFrom.spread` through
arrays, `DrawnFrom.applyMove` on an object), a list of rules does (`DrawnFrom.renamed`), and a
step (`DrawnFrom.applyStep`).
-/

set_option autoImplicit false

namespace DeclaredApi.Json.DrawnFrom

variable {source data result : Json}

/-- Putting a value at a path, or in the place of the whole, adds no leaf but its own. -/
theorem placed {path : List Char} {value : Json} (h : DrawnFrom source data)
    (hvalue : DrawnFrom source value) (hplaced : data.placed path value = .ok result) :
    DrawnFrom source result :=
  h.assigned hvalue (placed_eq_ok_iff.1 hplaced)

/-- An array is made of an item and the array of the others. -/
theorem array_of_bind {first : Except TransformError Json}
    {others : Except TransformError (List Json)} {items : List Json}
    (hfirst : ∀ item, first = .ok item → DrawnFrom source item)
    (hothers : ∀ rest, others = .ok rest → DrawnFrom source (.array rest))
    (h : (do return (← first) :: (← others)) = Except.ok items) :
    DrawnFrom source (.array items) := by
  obtain ⟨item, hitem, h⟩ := exists_of_bind_ok h
  obtain ⟨rest, hrest, h⟩ := exists_of_bind_ok h
  cases h
  exact drawnFrom_cons_iff.2 ⟨hfirst item hitem, hothers rest hrest⟩

/-! ### Extraction -/

/-- A field adds what it leads to in the data, or nothing. -/
theorem extractField {before : Json} {field : List Char} (hdata : DrawnFrom source data)
    (h : DrawnFrom source before) (hfield : Json.extractField data before field = .ok result) :
    DrawnFrom source result := by
  unfold Json.extractField at hfield
  split at hfield
  · next value path hget _ => exact h.placed (hdata.get? hget) hfield
  · cases hfield
    exact h

mutual

/-- Extraction adds no leaf but null. -/
theorem extract (fields : List (List Char)) (data : Json) {result : Json}
    (h : DrawnFrom source data) (hextract : data.extract fields = .ok result) :
    DrawnFrom source result := by
  match data with
  | .array items =>
      obtain ⟨reduced, hitems, rfl⟩ := exists_of_map_ok hextract
      exact extractItems (elementFields fields) items h hitems
  | .object members =>
      have hnew : DrawnFrom source (.object []) := List.nil_subset _
      exact of_foldlM_ok (fun _ _ _ hbefore => h.extractField hbefore) hnew hextract
  | .null | .bool _ | .number _ | .string _ =>
      cases hextract
      exact h

/-- Nor does extraction from the items of an array. -/
theorem extractItems (fields : List (List Char)) (items : List Json) {reduced : List Json}
    (h : DrawnFrom source (.array items)) (hitems : Json.extractItems fields items = .ok reduced) :
    DrawnFrom source (.array reduced) := by
  match items with
  | [] =>
      cases hitems
      exact h
  | item :: rest =>
      obtain ⟨hitem, hrest⟩ := drawnFrom_cons_iff.1 h
      exact array_of_bind (fun _ hfirst => extract fields item hitem hfirst)
        (fun _ hothers => extractItems fields rest hrest hothers) hitems

end

/-! ### Moves -/

/-- Items that each stay drawn from the source do so together. -/
theorem mapM {f : Json → Except TransformError Json}
    (hf : ∀ item changed, DrawnFrom source item → f item = .ok changed →
      DrawnFrom source changed) {items changed : List Json}
    (h : DrawnFrom source (.array items)) (hitems : items.mapM f = .ok changed) :
    DrawnFrom source (.array changed) := by
  induction items generalizing changed with
  | nil =>
      cases hitems
      exact h
  | cons item rest ih =>
      obtain ⟨hitem, hrest⟩ := drawnFrom_cons_iff.1 h
      rw [List.mapM_cons] at hitems
      exact array_of_bind (fun first hfirst => hf item first hitem hfirst)
        (fun _ hothers => ih hrest hothers) hitems

section Through

variable {f : Json → Except TransformError Json}

mutual

/-- A function that adds no leaf to objects adds none through arrays. -/
theorem throughArrays (hf : ∀ object changed, DrawnFrom source object → f object = .ok changed →
      DrawnFrom source changed) (data : Json) {result : Json} (h : DrawnFrom source data)
    (hthrough : data.throughArrays f = .ok result) : DrawnFrom source result := by
  match data with
  | .array items =>
      obtain ⟨changed, hitems, rfl⟩ := exists_of_map_ok hthrough
      exact throughItems hf items h hitems
  | .object members => exact hf _ result h hthrough
  | .null | .bool _ | .number _ | .string _ =>
      cases hthrough
      exact h

/-- Nor does it add one to the items of an array. -/
theorem throughItems (hf : ∀ object changed, DrawnFrom source object → f object = .ok changed →
      DrawnFrom source changed) (items : List Json) {changed : List Json}
    (h : DrawnFrom source (.array items)) (hitems : Json.throughItems f items = .ok changed) :
    DrawnFrom source (.array changed) := by
  match items with
  | [] =>
      cases hitems
      exact h
  | item :: rest =>
      obtain ⟨hitem, hrest⟩ := drawnFrom_cons_iff.1 h
      exact array_of_bind (fun _ hfirst => throughArrays hf item hitem hfirst)
        (fun _ hothers => throughItems hf rest hrest hothers) hitems

end

end Through

/-- Giving a member another name adds no leaf. -/
theorem moveMember (h : DrawnFrom source data) (origin target : List Char) :
    DrawnFrom source (Json.moveMember origin target data) := by
  unfold Json.moveMember
  split
  · split
    · next value hfind => exact (h.erase _).insert (h.find? hfind)
    · exact h
  · exact h

/-- Moving a value to another place adds no leaf but null. -/
theorem movePlace {origin target : List Char} (h : DrawnFrom source data)
    (hmove : Json.movePlace origin target data = .ok result) : DrawnFrom source result := by
  unfold Json.movePlace at hmove
  split at hmove
  · next value hget =>
      obtain ⟨placed, hplaced, rfl⟩ := exists_of_map_ok hmove
      exact (h.placed (h.get? hget) hplaced).delete origin
  · cases hmove
    exact h

/-- A change that adds no leaf to the elements of an array adds none to the data. -/
theorem moveEach {head : List Char} {f : Json → Except TransformError Json}
    (hf : ∀ item changed, DrawnFrom source item → f item = .ok changed →
      DrawnFrom source changed) (h : DrawnFrom source data)
    (hmove : Json.moveEach head f data = .ok result) : DrawnFrom source result := by
  unfold Json.moveEach at hmove
  split at hmove
  · cases hmove
    exact h
  · split at hmove
    · next items hitems =>
        obtain ⟨changed, hchanged, hmove⟩ := exists_of_bind_ok hmove
        cases hmove
        have harray := (h.getAt? hitems).mapM hf hchanged
        -- Where the array cannot be put back, the data stays as it is.
        cases hmodify : data.modifyAt? (fun _ => some (.array changed)) (Path.steps head) with
        | none => exact h
        | some modified =>
            refine h.modifyAt? (fun _ _ _ heq => ?_) hmodify
            cases heq
            exact harray
    · cases hmove
      exact h

/-- A move in all elements adds no leaf but null. -/
theorem spread (m : Move) (h : DrawnFrom source data) (hspread : m.spread data = .ok result) :
    DrawnFrom source result := by
  induction m generalizing data result with
  | stay =>
      cases hspread
      exact h
  | refused origin target => exact throughArrays (fun _ _ _ heq => by cases heq) data h hspread
  | member origin target =>
      refine throughArrays (fun object _ hobject heq => ?_) data h hspread
      cases heq
      exact hobject.moveMember origin target
  | place origin target =>
      exact throughArrays (fun _ _ hobject => hobject.movePlace) data h hspread
  | each head inner ih =>
      have hinner : ∀ item changed, DrawnFrom source item → inner.spread item = .ok changed →
          DrawnFrom source changed := fun _ _ hitem => ih hitem
      have hobjects : data.throughArrays (Json.moveEach head inner.spread) = .ok result →
          DrawnFrom source result :=
        throughArrays (fun _ _ hobject => hobject.moveEach hinner) data h
      cases head with
      | cons c head => exact hobjects hspread
      | nil =>
          -- A rule that starts with a marker goes on inside the elements of an array.
          cases data with
          | array items =>
              obtain ⟨changed, hitems, rfl⟩ := exists_of_map_ok hspread
              exact h.mapM hinner hitems
          | _ => exact hobjects hspread

/-- A move adds no leaf but null. -/
theorem applyMove (m : Move) (h : DrawnFrom source data) (hmove : m.apply data = .ok result) :
    DrawnFrom source result := by
  cases m with
  | stay =>
      cases hmove
      exact h
  | refused origin target => cases hmove
  | member origin target =>
      cases hmove
      exact h.moveMember origin target
  | place origin target => exact h.movePlace hmove
  | each head inner => exact h.moveEach (fun _ _ hitem => hitem.spread inner) hmove

/-! ### Rules, steps and pipelines -/

mutual

/-- Renaming adds no leaf but null. -/
theorem renamed (rules : List PathPair) (data : Json) {result : Json} (h : DrawnFrom source data)
    (hrenamed : data.renamed rules = .ok result) : DrawnFrom source result := by
  match data with
  | .array items =>
      obtain ⟨changed, hitems, rfl⟩ := exists_of_map_ok hrenamed
      exact renamedItems (elementRules rules) items h hitems
  | .object members =>
      exact of_foldlM_ok (fun _ rule _ hbefore => hbefore.applyMove (move rule.1 rule.2)) h hrenamed
  | .null | .bool _ | .number _ | .string _ =>
      cases hrenamed
      exact h

/-- Nor does renaming in the items of an array. -/
theorem renamedItems (rules : List PathPair) (items : List Json) {changed : List Json}
    (h : DrawnFrom source (.array items)) (hitems : Json.renamedItems rules items = .ok changed) :
    DrawnFrom source (.array changed) := by
  match items with
  | [] =>
      cases hitems
      exact h
  | item :: rest =>
      obtain ⟨hitem, hrest⟩ := drawnFrom_cons_iff.1 h
      exact array_of_bind (fun _ hfirst => renamed rules item hitem hfirst)
        (fun _ hothers => renamedItems rules rest hrest hothers) hitems

end

/-- A step adds no leaf but null. -/
theorem applyStep {step : TransformStep} (h : DrawnFrom source data)
    (hstep : step.apply data = .ok result) : DrawnFrom source result := by
  rw [TransformStep.apply_eq] at hstep
  obtain ⟨reduced, hreduced, hrelabeled⟩ := exists_of_bind_ok hstep
  have hdrawn : DrawnFrom source reduced := by
    unfold TransformStep.reduce at hreduced
    split at hreduced
    · cases hreduced
      exact h
    · cases hreduced
      exact h
    · exact extract _ data h hreduced
  unfold TransformStep.relabel at hrelabeled
  split at hrelabeled
  · cases hrelabeled
    exact hdrawn
  · cases hrelabeled
    exact hdrawn
  · exact renamed _ reduced hdrawn hrelabeled

/-- A step that fails leaves the value as it is. -/
theorem next {before : Reshaped} (h : DrawnFrom source before.value) (step : TransformStep) :
    DrawnFrom source (before.next step).value := by
  unfold Reshaped.next
  split
  · next value hstep => exact h.applyStep hstep
  · exact h

end DeclaredApi.Json.DrawnFrom

namespace DeclaredApi

/-- A pipeline makes nothing up: every leaf of its result is null or a leaf of the value that it
was given. -/
theorem leaves_pipeline_subset (spec : TransformSpec) (data : Json) :
    (pipeline spec.steps data).value.leaves ⊆ .null :: data.leaves :=
  List.foldlRecOn (motive := fun reshaped : Reshaped => Json.DrawnFrom data reshaped.value)
    spec.steps Reshaped.next (Json.DrawnFrom.refl data) fun _ h step _ => h.next step

end DeclaredApi
