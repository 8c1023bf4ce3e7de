import DeclaredApi.Proofs.Path.Delete

/-!
# `DeclaredApi.Proofs.Path.Replace`: reading, writing and replacing agree

Reading goes down a value, writing goes down and makes what is missing, and a change of what is
there goes down and puts the changed parts back in place. Each has its own rules for objects and
arrays. Along one path all of them come to one place: a change finds something exactly where a
reading does (`modifyAt?_eq_none`), and there an assignment of the changed value succeeds and makes
what the change makes (`exists_assignAt_of_getAt?`).

`walkers_agree` is the law for plain paths.
-/

set_option autoImplicit false

namespace DeclaredApi.Json

open DeclaredApi.Path (Step)

variable {root value found : Json} {names : List String} {path : List Char}

/-! ### Changing along keys -/

/-- Steps change the same value when they are written as keys. -/
theorem modifyAt?_map_asKey (f : Json → Option Json) {steps : List Step} (root : Json)
    (h : ∀ step ∈ steps, step.asPosition? = Path.position? step.asKey.toList) :
    root.modifyAt? f (steps.map fun step => .key step.asKey) = root.modifyAt? f steps := by
  induction steps generalizing root with
  | nil => rfl
  | cons step rest ih =>
      obtain ⟨hstep, hrest⟩ := List.forall_mem_cons.1 h
      rw [List.map_cons, modifyAt?, modifyAt?, modifyChild?_asKey hstep]
      exact congrArg (root.modifyChild? step ·) (funext fun child => ih child hrest)

/-- A value is replaced at a plain path along its keys. -/
theorem replace?_of_plain (h : Path.Plain path) (root value : Json) :
    root.replace? path value
      = root.modifyAt? (fun _ => some value) ((Path.keys path).map .key) := by
  rw [replace?, h.isWildcard, Path.keys, List.map_map]
  exact (modifyAt?_map_asKey _ root fun _ => Path.asPosition?_of_mem_steps).symm

/-- Nothing is changed where nothing is read. -/
theorem modifyAt?_eq_none (h : root.getAt? (names.map .key) = none) (f : Json → Option Json) :
    root.modifyAt? f (names.map .key) = none := by
  induction names generalizing root with
  | nil => cases h
  | cons key rest ih =>
      rw [List.map_cons, modifyAt?, modifyChild?_eq]
      cases hchild : root.child? (.key key) with
      | none => rfl
      | some child =>
          rw [List.map_cons, getAt?, hchild] at h
          rw [Option.bind_eq_bind, Option.bind_some, ih h]
          rfl

/-- Where something is read, an assignment succeeds, and it makes what a change to the assigned
value makes. -/
theorem exists_assignAt_of_getAt? (h : root.getAt? (names.map .key) = some found)
    (f : Json → Option Json) (hf : f found = some value) :
    ∃ written, assignAt value (names.map .key) root = (written, none) ∧
      root.modifyAt? f (names.map .key) = some written := by
  induction names generalizing root with
  | nil =>
      cases h
      exact ⟨value, rfl, hf⟩
  | cons key rest ih =>
      obtain ⟨child, hchild, hget⟩ := Option.bind_eq_some_iff.1 h
      obtain ⟨made, hmade, hmodify⟩ := ih hget
      have hparent : assignAt value (rest.map .key) (parentOrNew (root.child? (.key key)))
          = (made, none) := by
        rw [hchild]
        by_cases hrest : rest = []
        · -- The path ends at the child, whatever it is.
          subst hrest
          exact hmade
        · have hcontainer := isContainer_of_getAt? (by simpa using hrest) hget
          rwa [parentOrNew_some hcontainer]
      refine ⟨root.putChild key made, ?_, ?_⟩
      · exact assignAt_cons_iff.2 ⟨hasRoom_of_child? hchild, made, hparent, rfl⟩
      · rw [List.map_cons, modifyAt?, modifyChild?_eq, hchild, Option.bind_eq_bind,
          Option.bind_some, hmodify]
        rfl

/-! ### Paths -/

/-- What is assigned at a plain path is read there. A value is there to be replaced exactly where
one is read, and then an assignment succeeds and makes what the replacement makes. -/
theorem walkers_agree (h : Path.Plain path) (root value : Json) :
    (∀ written, root.assign path value = (written, none) → written.get? path = some value) ∧
    ((root.replace? path value).isSome = (root.get? path).isSome) ∧
    ((root.get? path).isSome → ∃ written,
      root.assign path value = (written, none) ∧ root.replace? path value = some written) := by
  rw [get?_of_plain h, replace?_of_plain h]
  have hassigned : ∀ written, root.assign path value = (written, none) →
      written.get? path = some value := by
    intro written hassign
    rw [get?_of_plain h]
    exact getAt?_assignAt ((assign_eq_iff_of_plain h).1 hassign)
  cases hget : root.getAt? ((Path.keys path).map .key) with
  | none =>
      rw [modifyAt?_eq_none hget]
      exact ⟨hassigned, rfl, fun hsome => absurd hsome Bool.false_ne_true⟩
  | some found =>
      obtain ⟨written, hassign, hmodify⟩ :=
        exists_assignAt_of_getAt? hget (fun _ => some value) rfl
      rw [hmodify]
      exact ⟨hassigned, rfl, fun _ => ⟨written, (assign_eq_iff_of_plain h).2 hassign, rfl⟩⟩

/-- A grid of two rows. -/
def grid : Json :=
  .object [("rows", .array [.array [.bool true, .bool false], .array [.null, .bool true]])]

/-- The walkers meet at the first place of the second row, however its position is spelled. -/
theorem walkers_agree_in_grid : ∃ written,
    grid.assign "rows.01[0]".toList (.string "x") = (written, none) ∧
      grid.replace? "rows.01[0]".toList (.string "x") = some written ∧
      written.get? "rows.01[0]".toList = some (.string "x") := by
  have hplain : Path.Plain "rows.01[0]".toList := by decide
  have hget : grid.get? "rows.01[0]".toList = some .null := by with_unfolding_all rfl
  obtain ⟨hread, -, hsame⟩ := walkers_agree hplain grid (.string "x")
  obtain ⟨written, hassign, hreplace⟩ := hsame (by rw [hget]; rfl)
  exact ⟨written, hassign, hreplace, hread written hassign⟩

end DeclaredApi.Json
