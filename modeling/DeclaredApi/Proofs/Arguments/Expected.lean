import DeclaredApi.Proofs.Dict
import DeclaredApi.Proofs.Service.Names
import DeclaredApi.Proofs.Template
import Mathlib.Data.List.Induction

/-!
# `DeclaredApi.Proofs.Arguments.Expected`: what is expected under a name

The parameters of an operation are put together one declaration after the other. Looked at by
name, the result is simple (`find?_ofOperation`): a placeholder of the path is a required path
parameter, with the schema of its last declaration, and any other name is as its last declaration
has it. The proof goes over the declarations from the last one, and each of them changes what is
expected under its own name only (`find?_declare`).

Each declaration that a placeholder overrules leaves a finding, in the order of the declarations
(`findings_ofOperation`). `parameters_of_operation` puts both together. So where no name is
declared twice, the order of the declarations decides about the order of the findings and about
nothing else (`entries_ofOperation_of_perm`).
-/

set_option autoImplicit false

namespace DeclaredApi

namespace Operation

variable (op : Operation Call)

/-- The placeholders of the path, if there is a path. -/
def placeholders : List String :=
  (op.template?.map Template.placeholders).getD []

/-- The declaration of a parameter that counts: the last one of its name. -/
def declaration? (name : String) : Option Parameter :=
  op.parameters.reverse.find? (·.name = name)

/-- The declarations that a placeholder overrules, in order: those of the name of a placeholder
that ask for another slot than the path or let the argument be left out. -/
def overruled : List Parameter :=
  op.parameters.filter fun p => p.name ∈ op.placeholders ∧ (p.slot ≠ .path ∨ p.required = false)

end Operation

namespace Expected

/-- What a declaration asks for, whether or not its name is a placeholder. -/
def ofDeclaration (isPlaceholder : Bool) (p : Parameter) : Expectation :=
  if isPlaceholder then { placeholder with schema := p.schema }
  else ⟨p.slot, p.required, p.schema⟩

/-- One more declaration changes what is expected under its name. -/
theorem find?_declare (operation name : String) (placeholders : List String)
    (expected : Expected) (p : Parameter) :
    (declare operation placeholders expected p).find? name
      = if p.name = name then some (ofDeclaration (placeholders.contains name) p)
        else expected.find? name := by
  unfold declare ofDeclaration
  by_cases hname : p.name = name
  · subst hname
    cases hcontains : placeholders.contains p.name with
    | true => simp [find?, Dict.find?_insert]
    | false => simp [find?, Dict.find?_insert]
  · split
    · simp [find?, Dict.find?_insert, hname]
    · simp [find?, Dict.find?_insert, hname]

/-- Before any declaration, the placeholders are expected as placeholders. -/
theorem find?_placeholders (placeholders : List String) (name : String) :
    Dict.find? name (Dict.ofList (placeholders.map fun name => (name, placeholder)))
      = if name ∈ placeholders then some placeholder else none := by
  have hvalue : ∀ found, Dict.find? name
      (Dict.ofList (placeholders.map fun name => (name, placeholder))) = some found →
      name ∈ placeholders ∧ found = placeholder := by
    intro found hfound
    obtain ⟨_, hmem, heq⟩ := List.mem_map.mp (Dict.mem_ofList_imp (Dict.mem_of_find? hfound))
    cases heq
    exact ⟨hmem, rfl⟩
  split
  · next hmem =>
      have hentry : (name, placeholder) ∈ placeholders.map fun name => (name, placeholder) :=
        List.mem_map_of_mem hmem
      obtain ⟨found, hfound⟩ := Dict.exists_find?_ofList hentry
      rw [hfound, (hvalue found hfound).2]
  · next hmem =>
      refine Option.eq_none_iff_forall_ne_some.mpr fun found hfound => ?_
      exact hmem (hvalue found hfound).1

/-- What is expected after some declarations, by name. -/
theorem find?_declarations (operation name : String) (placeholders : List String)
    (declarations : List Parameter) :
    (declarations.foldl (declare operation placeholders)
        { entries := Dict.ofList (placeholders.map fun name => (name, placeholder)) }).find? name
      = match declarations.reverse.find? (·.name = name) with
        | some p => some (ofDeclaration (placeholders.contains name) p)
        | none => if name ∈ placeholders then some placeholder else none := by
  induction declarations using List.reverseRecOn with
  | nil => exact find?_placeholders placeholders name
  | append_singleton earlier last ih =>
      rw [List.foldl_append, List.foldl_cons, List.foldl_nil, find?_declare, ih,
        List.reverse_append]
      by_cases hname : last.name = name
      · simp [hname]
      · simp [hname]

variable {op : Operation Call} {name : String}

/-- A placeholder is a required path parameter with the schema that was declared last for it. Any
other name is as it was declared last. -/
theorem find?_ofOperation (op : Operation Call) (name : String) :
    (ofOperation op).find? name
      = if name ∈ op.placeholders then
          some { placeholder with schema := (op.declaration? name).bind (·.schema) }
        else (op.declaration? name).map fun p => ⟨p.slot, p.required, p.schema⟩ := by
  have hfind : (ofOperation op).find? name = _ :=
    find?_declarations op.name name op.placeholders op.parameters
  rw [hfind]
  show (match op.declaration? name with | some p => _ | none => _) = _
  cases op.declaration? name with
  | some p =>
      by_cases hmem : name ∈ op.placeholders
      · simp [ofDeclaration, hmem]
      · simp [ofDeclaration, hmem]
  | none => simp [placeholder]

/-- The parameters are sorted by name. -/
theorem sorted_entries (op : Operation Call) : Dict.Sorted (ofOperation op).entries := by
  unfold ofOperation
  generalize op.parameters = declarations
  induction declarations using List.reverseRecOn with
  | nil => exact Dict.sorted_ofList _
  | append_singleton earlier last ih =>
      rw [List.foldl_append, List.foldl_cons, List.foldl_nil]
      unfold declare
      split
      · exact Dict.sorted_insert ih _ _
      · exact Dict.sorted_insert ih _ _

/-- The required names are those under which a required parameter is expected. -/
theorem mem_required_iff :
    name ∈ (ofOperation op).required ↔
      ∃ e, (ofOperation op).find? name = some e ∧ e.required = true := by
  simp only [find?, Dict.find?_eq_some_iff (sorted_entries op)]
  simp only [required, Dict.keys, List.mem_map, List.mem_filter]
  constructor
  · rintro ⟨⟨_, e⟩, ⟨hmem, hrequired⟩, rfl⟩
    exact ⟨e, hmem, hrequired⟩
  · rintro ⟨e, hmem, hrequired⟩
    exact ⟨(name, e), ⟨hmem, hrequired⟩, rfl⟩

/-- A placeholder is required. -/
theorem required_of_placeholder (h : name ∈ op.placeholders) :
    name ∈ (ofOperation op).required := by
  rw [mem_required_iff, find?_ofOperation, if_pos h]
  exact ⟨_, rfl, rfl⟩

/-! ### Names -/

/-- A name has a declaration that counts when it is declared at all. -/
theorem isSome_declaration?_iff :
    (op.declaration? name).isSome = true ↔ ∃ p ∈ op.parameters, p.name = name := by
  simp only [Operation.declaration?, List.find?_isSome, List.mem_reverse, decide_eq_true_eq]

/-- The names of the parameters are the placeholders and the declared names. -/
theorem mem_keys_ofOperation_iff :
    name ∈ Dict.keys (ofOperation op).entries ↔
      name ∈ op.placeholders ∨ ∃ p ∈ op.parameters, p.name = name := by
  rw [← Dict.isSome_find?_iff, ← isSome_declaration?_iff]
  show ((ofOperation op).find? name).isSome = true ↔ _
  rw [find?_ofOperation]
  by_cases hplaceholder : name ∈ op.placeholders
  · simp [hplaceholder]
  · simp [hplaceholder]

/-! ### Findings -/

/-- One more declaration adds a finding where a placeholder overrules it. -/
theorem findings_declare (operation : String) (placeholders : List String) (expected : Expected)
    (p : Parameter) :
    (declare operation placeholders expected p).findings
      = expected.findings ++
        if p.name ∈ placeholders ∧ (p.slot ≠ .path ∨ p.required = false) then
          [.staysPath operation p.name]
        else [] := by
  unfold declare
  by_cases hplaceholder : p.name ∈ placeholders
  · rw [if_pos (List.contains_iff_mem.mpr hplaceholder)]
    by_cases hagrees : p.slot = .path ∧ p.required = true
    · simp [hagrees]
    · have hoverruled : p.slot ≠ .path ∨ p.required = false := by
        simpa [-not_and, not_and_or] using hagrees
      simp [hplaceholder, hagrees, hoverruled]
  · simp [hplaceholder]

/-- There is one finding for each declaration that a placeholder overrules, in their order. -/
theorem findings_ofOperation (op : Operation Call) :
    (ofOperation op).findings = op.overruled.map fun p => .staysPath op.name p.name := by
  unfold ofOperation Operation.overruled
  show (op.parameters.foldl (declare op.name op.placeholders) _).findings = _
  generalize op.parameters = declarations
  induction declarations using List.reverseRecOn with
  | nil => rfl
  | append_singleton earlier last ih =>
      rw [List.foldl_append, List.foldl_cons, List.foldl_nil, findings_declare, ih,
        List.filter_append, List.map_append]
      congr 1
      by_cases hlast : last.name ∈ op.placeholders ∧ (last.slot ≠ .path ∨ last.required = false)
      · simp [hlast]
      · simp [hlast]

/-! ### The order of the declarations -/

/-- Where no name is declared twice, the declaration that counts is the one of the name. -/
theorem declaration?_eq_some_iff (h : (op.parameters.map (·.name)).Nodup) {p : Parameter} :
    op.declaration? name = some p ↔ p ∈ op.parameters ∧ p.name = name := by
  have hreverse : (op.parameters.reverse.map (·.name)).Nodup := by
    rwa [List.map_reverse, List.nodup_reverse]
  rw [Operation.declaration?, Service.find?_name_eq_some_iff hreverse, List.mem_reverse]

/-- Where no name is declared twice, the parameters are the same in every order of the
declarations. -/
theorem entries_ofOperation_of_perm {declarations : List Parameter}
    (h : (op.parameters.map (·.name)).Nodup) (hperm : declarations.Perm op.parameters) :
    (ofOperation { op with parameters := declarations }).entries = (ofOperation op).entries := by
  have h' : (declarations.map (·.name)).Nodup := (hperm.map _).nodup_iff.mpr h
  apply Dict.eq_of_find?_eq (sorted_entries _) (sorted_entries op)
  intro name
  -- The declaration that counts is told by membership, which does not see the order.
  have hsame : Operation.declaration? { op with parameters := declarations } name
      = op.declaration? name := by
    apply Option.ext
    intro p
    rw [declaration?_eq_some_iff h', declaration?_eq_some_iff h, hperm.mem_iff]
  show (ofOperation _).find? name = (ofOperation op).find? name
  rw [find?_ofOperation, find?_ofOperation, hsame]
  rfl

/-! ### The law -/

/-- The parameters of an operation, whatever its path and its declarations are.

There is one under each name that is a placeholder or declared, and under no other. A placeholder
is a required path parameter with the schema that was declared last for it, and any other name is
as it was declared last. There is one finding for each declaration that a placeholder overrules.
Where no name is declared twice, the parameters are the same in every order of the declarations. -/
theorem parameters_of_operation (op : Operation Call) :
    let expected := ofOperation op
    Dict.Sorted expected.entries
      ∧ (∀ name, name ∈ Dict.keys expected.entries ↔
          name ∈ op.placeholders ∨ ∃ p ∈ op.parameters, p.name = name)
      ∧ (∀ name ∈ op.placeholders, expected.find? name
          = some ⟨.path, true, (op.declaration? name).bind (·.schema)⟩)
      ∧ (∀ name ∉ op.placeholders, expected.find? name
          = (op.declaration? name).map fun p => ⟨p.slot, p.required, p.schema⟩)
      ∧ expected.findings = op.overruled.map (fun p => .staysPath op.name p.name)
      ∧ ∀ declarations, (op.parameters.map (·.name)).Nodup → declarations.Perm op.parameters →
          (ofOperation { op with parameters := declarations }).entries = expected.entries := by
  refine ⟨sorted_entries op, fun name => mem_keys_ofOperation_iff, ?placeholder, ?declared,
    findings_ofOperation op, fun declarations => entries_ofOperation_of_perm⟩
  case placeholder =>
    intro name hplaceholder
    rw [find?_ofOperation, if_pos hplaceholder]
    rfl
  case declared =>
    intro name hplaceholder
    rw [find?_ofOperation, if_neg hplaceholder]

/-- An endpoint that declares its placeholder as optional, after a parameter of the query. -/
def userOperation : Operation Call :=
  { name := "getUser", call := .rest ⟨.get, "/users/{id}"⟩
    parameters := [{ name := "fields", slot := .query, schema := some { kind := some .array } },
      { name := "id", slot := .query, schema := some { kind := some .integer } }] }

/-- Declared the other way round, the endpoint has the same parameters. -/
theorem parameters_of_userOperation :
    (userOperation.parameters.map (·.name)).Nodup ∧
    userOperation.parameters.reverse.Perm userOperation.parameters ∧
    (ofOperation { userOperation with parameters := userOperation.parameters.reverse }).entries
      = (ofOperation userOperation).entries := by
  have hnodup : (userOperation.parameters.map (·.name)).Nodup := by decide
  have hperm := List.reverse_perm userOperation.parameters
  obtain ⟨-, -, -, -, -, horder⟩ := parameters_of_operation userOperation
  exact ⟨hnodup, hperm, horder _ hnodup hperm⟩

end Expected
end DeclaredApi
