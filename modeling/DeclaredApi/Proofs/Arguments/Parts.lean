import DeclaredApi.Proofs.Arguments.Expected

/-!
# `DeclaredApi.Proofs.Arguments.Parts`: the parts of a request in closed form

Arguments are put into their slots one after the other. Arguments are sorted by name, so the
result can be written down at once (`ofSlots`): each part is the list of the arguments of its
slot, in their order. `foldl_place` says so, by induction from the last argument, whose name comes
after all others and goes to the end of its part. `exists_path_of_parts` is what this gives for
the parts of an operation. Of arguments in any order it is said that they are put into their slots
on the path that is sent (`exists_foldl_of_parts`), which they leave alone (`path_foldl_place`).
-/

set_option autoImplicit false

namespace DeclaredApi

/-- The arguments that go into a slot. -/
def Arguments.inSlot (slotOf : String → Slot) (slot : Slot) (arguments : Arguments) : Arguments :=
  arguments.filter fun argument => slotOf argument.1 = slot

namespace RequestParts

/-- The parts of a request in which every argument is in its slot. -/
def ofSlots (slotOf : String → Slot) (path : String) (arguments : Arguments) : RequestParts where
  path
  query := (arguments.inSlot slotOf .query).flatMap fun (name, value) => queryPairs name value
  headers := ((arguments.inSlot slotOf .header).filter (¬ ·.2.isNull)).map fun (name, value) =>
    (name, value.plainText)
  body :=
    if (arguments.inSlot slotOf .body).isEmpty then none
    else some (arguments.inSlot slotOf .body)

variable {slotOf : String → Slot} {arguments : Arguments}

/-- One more argument is sorted into a slot after all others. -/
theorem inSlot_concat (slotOf : String → Slot) (slot : Slot) (arguments : Arguments)
    (name : String) (value : Json) :
    Arguments.inSlot slotOf slot (arguments ++ [(name, value)])
      = arguments.inSlot slotOf slot ++ if slotOf name = slot then [(name, value)] else [] := by
  simp only [Arguments.inSlot, List.filter_append, List.filter_cons, List.filter_nil,
    decide_eq_true_eq]

/-- An argument whose name comes after all others is put at the end of its part. -/
theorem place_ofSlots (path : String) {name : String} (value : Json)
    (hlast : ∀ argument ∈ arguments, argument.1 < name) :
    (ofSlots slotOf path arguments).place (slotOf name) name value
      = ofSlots slotOf path (arguments ++ [(name, value)]) := by
  have hslot : ∀ slot, ∀ argument ∈ arguments.inSlot slotOf slot, argument.1 < name :=
    fun _ argument hmem => hlast argument (List.mem_filter.mp hmem).1
  cases hname : slotOf name with
  | path => simp [place, ofSlots, inSlot_concat, hname]
  | query => simp [place, ofSlots, inSlot_concat, hname]
  | header =>
      cases hnull : value.isNull with
      | true => simp [place, ofSlots, inSlot_concat, hname, hnull]
      | false =>
          have hheaders : ∀ header ∈ ((arguments.inSlot slotOf .header).filter
              (¬ ·.2.isNull)).map (fun (name, value) => (name, value.plainText)),
              header.1 < name := by
            intro header hmem
            obtain ⟨argument, hargument, rfl⟩ := List.mem_map.mp hmem
            exact hslot .header argument (List.mem_filter.mp hargument).1
          have hinsert := Dict.insert_eq_append value.plainText hheaders
          simp only [place, hnull, Bool.false_eq_true, if_false]
          simp only [ofSlots, inSlot_concat, hname, hinsert]
          simp [hnull]
  | body =>
      have hinsert := Dict.insert_eq_append value (hslot .body)
      -- The first field makes the body, the others are put at its end.
      cases hfields : arguments.inSlot slotOf .body with
      | nil => simp [place, ofSlots, inSlot_concat, hname, hfields, Dict.insert]
      | cons first rest =>
          rw [hfields] at hinsert
          simp [place, ofSlots, inSlot_concat, hname, hfields, hinsert]

/-- Putting sorted arguments into their slots, one after the other, gives the parts at once. -/
theorem foldl_place (slotOf : String → Slot) (path : String) (hsorted : Dict.Sorted arguments) :
    arguments.foldl (fun parts (name, value) => parts.place (slotOf name) name value) { path }
      = ofSlots slotOf path arguments := by
  induction arguments using List.reverseRecOn with
  | nil => rfl
  | append_singleton earlier last ih =>
      obtain ⟨name, value⟩ := last
      obtain ⟨hearlier, -, hlast⟩ := List.pairwise_append.mp hsorted
      rw [List.foldl_append, ih hearlier]
      exact place_ofSlots path value fun argument hmem =>
        hlast argument hmem (name, value) (List.mem_singleton_self _)

/-- Putting arguments into their slots leaves the path alone. -/
theorem path_foldl_place (slotOf : String → Slot) (parts : RequestParts) :
    (arguments.foldl (fun parts (name, value) => parts.place (slotOf name) name value) parts).path
      = parts.path := by
  induction arguments generalizing parts with
  | nil => rfl
  | cons argument rest ih =>
      rw [List.foldl_cons, ih]
      show (parts.place (slotOf argument.1) argument.1 argument.2).path = parts.path
      cases slotOf argument.1 with
      | path | query | body => rfl
      | header =>
          -- A null is put into no header.
          unfold place
          dsimp only
          split <;> rfl

end RequestParts

/-- The path that is sent for an operation: its template with the arguments filled in, or an empty
one where there is no template. -/
def Operation.SendsPath (op : Operation Call) (arguments : Arguments) (path : String) : Prop :=
  match op.template? with
  | some template => Template.fill template arguments = .ok path
  | none => path = ""

namespace Arguments

variable {op : Operation Call} {expected : Expected} {arguments : Arguments}

/-- A filled template is all that the parts of a request need. -/
theorem parts_of_fill {template path : String} (htemplate : op.template? = some template)
    (hfill : Template.fill template arguments = .ok path) :
    arguments.parts op expected = .ok (arguments.foldl (fun parts (name, value) =>
      parts.place (op.slotFor expected name) name value) { path }) := by
  unfold parts
  rw [htemplate]
  show (Template.fill template arguments).mapError unfilledReport >>= _ = _
  rw [hfill]
  rfl

/-- The parts of a request for an operation are made by putting its arguments into their slots, one
after the other, on the path that is sent for it. -/
theorem exists_foldl_of_parts {parts : RequestParts}
    (h : arguments.parts op expected = .ok parts) :
    ∃ path, op.SendsPath arguments path ∧ parts = arguments.foldl (fun parts (name, value) =>
      parts.place (op.slotFor expected name) name value) { path } := by
  unfold Operation.SendsPath
  cases htemplate : op.template? with
  | none =>
      unfold Arguments.parts at h
      rw [htemplate] at h
      exact ⟨"", rfl, (Except.ok.inj h).symm⟩
  | some template =>
      cases hfill : Template.fill template arguments with
      | ok path =>
          rw [parts_of_fill htemplate hfill] at h
          exact ⟨path, hfill, (Except.ok.inj h).symm⟩
      | error unfilled =>
          unfold Arguments.parts at h
          rw [htemplate] at h
          change (Template.fill template arguments).mapError unfilledReport >>= _ = _ at h
          rw [hfill] at h
          cases h

/-- The path of the parts of a request is the filled template. -/
theorem fill_of_parts {template : String} {parts : RequestParts}
    (htemplate : op.template? = some template) (h : arguments.parts op expected = .ok parts) :
    Template.fill template arguments = .ok parts.path := by
  obtain ⟨path, hpath, rfl⟩ := exists_foldl_of_parts h
  rw [Operation.SendsPath, htemplate] at hpath
  rw [RequestParts.path_foldl_place]
  exact hpath

/-- The arguments of a request are sorted, so its parts can be written down at once. -/
theorem exists_path_of_parts {parts : RequestParts} (hsorted : Dict.Sorted arguments)
    (h : arguments.parts op expected = .ok parts) :
    ∃ path, parts = .ofSlots (op.slotFor expected) path arguments ∧
      op.SendsPath arguments path := by
  obtain ⟨path, hpath, rfl⟩ := exists_foldl_of_parts h
  exact ⟨path, RequestParts.foldl_place (op.slotFor expected) path hsorted, hpath⟩

end Arguments
end DeclaredApi
