import DeclaredApi.Request.Prepare
import DeclaredApi.Service.Check
import Mathlib.Data.List.Nodup

/-!
# `DeclaredApi.Proofs.Service.Names`: the names of an accepted service

A service that passes `Service.check` uses every name for one thing (`NamesApart`): operations
have different names, aliases have different names, no alias has the name of an operation, and
every alias names an operation. This is the last part of what the check asks for
(`check_eq_ok_iff`), and `namesApart_of_check` reads it off. The two lists of names are built up
while the check goes on, so the lemmas about `checkOperations` and `checkAliases` are stated for
any names seen before.

The rest is about looking names up. The name of an alias finds that alias (`lookup?_alias`), the
name of an operation finds the operation whatever aliases there are (`lookup?_operation`), and
so an alias is resolved to the operation it names (`resolve_alias`).
-/

set_option autoImplicit false

namespace DeclaredApi

/-- A check goes on past a rule exactly when the rule is kept. -/
@[simp] theorem refuseIf_bind_eq_ok {α : Type} {broken : Bool} {fault : ServiceFault}
    {next : Unit → Except ServiceFault α} {a : α} :
    (refuseIf broken fault >>= next) = .ok a ↔ broken = false ∧ next () = .ok a := by
  cases broken with
  | false => simp [refuseIf, bind, Except.bind]
  | true => simp [refuseIf, bind, Except.bind]

/-- An operation keeps the rules when its name is not blank, its path starts with a slash, and it
only reads where its responses are to be cached. -/
theorem Operation.check_eq_ok_iff {op : Operation Call} :
    op.check = .ok () ↔
      Text.isBlankString op.name = false ∧
      (∀ path ∈ op.template?, path.startsWith "/" = true) ∧
      (op.cacheSeconds.isSome = true → op.isRead = true) := by
  have hlast : refuseIf (op.cacheSeconds.isSome && ¬ op.isRead) (.cachedWrite op.name) = .ok () ↔
      (op.cacheSeconds.isSome = true → op.isRead = true) := by
    cases op.cacheSeconds.isSome <;> cases op.isRead <;> simp [refuseIf]
  unfold Operation.check
  rw [refuseIf_bind_eq_ok, refuseIf_bind_eq_ok, hlast]
  cases op.template? with
  | none => simp
  | some path => simp

namespace Service

/-- Every name of the service means one thing.

- `operations`, `aliases`: no two operations and no two aliases share a name;
- `apart`: no alias has the name of an operation;
- `targets`: every alias names an operation. -/
structure NamesApart (service : Service) : Prop where
  operations : service.operationNames.Nodup
  aliases : (service.aliases.map (·.name)).Nodup
  apart : ∀ a ∈ service.aliases, a.name ∉ service.operationNames
  targets : ∀ a ∈ service.aliases, a.operation ∈ service.operationNames

/-- The operations pass when each of them does and no name comes twice. -/
theorem checkOperations_eq_ok_iff {seen : List String} {operations : List (Operation Call)} :
    checkOperations seen operations = .ok () ↔
      (∀ op ∈ operations, op.check = .ok ()) ∧ (operations.map (·.name)).Nodup ∧
        ∀ op ∈ operations, op.name ∉ seen := by
  induction operations generalizing seen with
  | nil => simp [checkOperations]
  | cons op rest ih =>
      cases hop : op.check with
      | error fault => simp [checkOperations, hop, bind, Except.bind]
      | ok =>
          have hstep : checkOperations seen (op :: rest) = .ok () ↔
              op.name ∉ seen ∧ checkOperations (op.name :: seen) rest = .ok () := by
            simp only [checkOperations, hop]
            show (refuseIf _ _ >>= _) = _ ↔ _
            simp
          -- A name that is new and not in the rest is in neither list that the rest is kept from.
          rw [hstep, ih]
          simp only [List.map_cons, List.nodup_cons, List.mem_map, List.mem_cons]
          grind

/-- The aliases pass when no name comes twice, none is the name of an operation, and each names
an operation. -/
theorem checkAliases_eq_ok_iff {operations seen : List String} {aliases : List Alias} :
    checkAliases operations seen aliases = .ok () ↔
      (aliases.map (·.name)).Nodup ∧
        ∀ a ∈ aliases, a.name ∉ seen ∧ a.name ∉ operations ∧ a.operation ∈ operations := by
  induction aliases generalizing seen with
  | nil => simp [checkAliases]
  | cons a rest ih =>
      have hstep : checkAliases operations seen (a :: rest) = .ok () ↔
          a.name ∉ seen ∧ a.name ∉ operations ∧ a.operation ∈ operations ∧
            checkAliases operations (a.name :: seen) rest = .ok () := by
        simp [checkAliases]
      rw [hstep, ih]
      simp only [List.map_cons, List.nodup_cons, List.mem_map, List.mem_cons]
      grind

variable {service : Service}

/-- A service is accepted when its own fields keep the rules, each operation keeps them, and every
name means one thing. -/
theorem check_eq_ok_iff :
    service.check = .ok () ↔
      Text.isBlankString service.name = false ∧
      (service.baseUrl.startsWith "http://" || service.baseUrl.startsWith "https://") = true ∧
      (service.endpoints.isEmpty && service.graphqlOperations.isEmpty) = false ∧
      (service.endpoints.isEmpty || service.graphqlOperations.isEmpty) = true ∧
      (∀ op ∈ service.operations, op.check = .ok ()) ∧ service.NamesApart := by
  have hnames : (checkOperations [] service.operations >>= fun _ =>
      checkAliases service.operationNames [] service.aliases) = .ok () ↔
      (∀ op ∈ service.operations, op.check = .ok ()) ∧ service.NamesApart := by
    cases hoperations : checkOperations [] service.operations with
    | error fault =>
        -- The operations are refused, so they do not keep the rules or share a name.
        constructor
        · intro h
          cases h
        · rintro ⟨hall, hapart⟩
          have hok := checkOperations_eq_ok_iff.mpr
            ⟨hall, hapart.operations, fun _ _ => List.not_mem_nil⟩
          cases hoperations.symm.trans hok
    | ok =>
        obtain ⟨hall, hnodup, -⟩ := checkOperations_eq_ok_iff.mp hoperations
        show checkAliases _ _ _ = _ ↔ _
        rw [checkAliases_eq_ok_iff]
        constructor
        · rintro ⟨haliases, hnew⟩
          exact ⟨hall, hnodup, haliases, fun a ha => (hnew a ha).2.1, fun a ha => (hnew a ha).2.2⟩
        · rintro ⟨-, hapart⟩
          exact ⟨hapart.aliases, fun a ha =>
            ⟨List.not_mem_nil, hapart.apart a ha, hapart.targets a ha⟩⟩
  unfold check
  simp only [refuseIf_bind_eq_ok]
  rw [hnames]
  simp [or_iff_not_imp_left]

/-- An accepted service uses every name for one thing. -/
theorem namesApart_of_check (h : service.check = .ok ()) : service.NamesApart :=
  (check_eq_ok_iff.mp h).2.2.2.2.2

/-- A service with a single operation and no alias is accepted when the operation keeps the
rules. -/
theorem check_of_operations_eq {op : Operation Call} (hoperations : service.operations = [op])
    (haliases : service.aliases = []) (hname : Text.isBlankString service.name = false)
    (hbase : service.baseUrl.startsWith "http://" = true) (hop : op.check = .ok ()) :
    service.check = .ok () := by
  have hlength : service.endpoints.length + service.graphqlOperations.length = 1 := by
    simpa [operations] using congrArg List.length hoperations
  -- One operation in all, so exactly one of the two lists has it.
  have hempty : (service.endpoints.isEmpty && service.graphqlOperations.isEmpty) = false ∧
      (service.endpoints.isEmpty || service.graphqlOperations.isEmpty) = true := by
    cases hendpoints : service.endpoints with
    | nil =>
        rw [hendpoints] at hlength
        cases hgraphql : service.graphqlOperations with
        | nil => simp [hgraphql] at hlength
        | cons first rest => exact ⟨rfl, rfl⟩
    | cons first rest =>
        have hgraphql : service.graphqlOperations = [] := by
          rw [hendpoints, List.length_cons] at hlength
          exact List.eq_nil_of_length_eq_zero (by omega)
        rw [hgraphql]
        exact ⟨rfl, rfl⟩
  refine check_eq_ok_iff.mpr ⟨hname, by rw [hbase]; rfl, hempty.1, hempty.2, ?_, ?_⟩
  · intro other hmem
    rw [hoperations, List.mem_singleton] at hmem
    rw [hmem, hop]
  · refine ⟨by simp [operationNames, hoperations], by simp [haliases], ?_, ?_⟩
    · intro a ha
      rw [haliases] at ha
      cases ha
    · intro a ha
      rw [haliases] at ha
      cases ha

/-! ### Looking names up -/

/-- A name of the list of operations is the name of an operation. -/
theorem exists_operation? {name : String} (h : name ∈ service.operationNames) :
    ∃ op, service.operation? name = some op := by
  obtain ⟨op, hmem, hname⟩ := List.mem_map.mp h
  cases hfind : service.operation? name with
  | some found => exact ⟨found, rfl⟩
  | none => exact absurd hname (by simpa using List.find?_eq_none.mp hfind op hmem)

/-- Where no name comes twice, a name finds the one item that has it. -/
theorem find?_name_eq_some_iff {α : Type} {nameOf : α → String} {items : List α}
    (h : (items.map nameOf).Nodup) {name : String} {item : α} :
    items.find? (fun item => nameOf item = name) = some item ↔
      item ∈ items ∧ nameOf item = name := by
  constructor
  · intro hfind
    exact ⟨List.mem_of_find?_eq_some hfind, by simpa using List.find?_some hfind⟩
  · rintro ⟨hmem, rfl⟩
    cases hfound : items.find? (fun other => nameOf other = nameOf item) with
    | none =>
        have hother := List.find?_eq_none.mp hfound item hmem
        simp at hother
    | some found =>
        -- Both are in the list under one name, and no name comes twice.
        have hname : nameOf found = nameOf item := by simpa using List.find?_some hfound
        rw [List.inj_on_of_nodup_map h (List.mem_of_find?_eq_some hfound) hmem hname]

/-- The name of an alias finds that alias. -/
theorem lookup?_alias (h : service.NamesApart) {a : Alias} (ha : a ∈ service.aliases) :
    service.lookup? a.name = some (.ofAlias a) := by
  have hfind : service.alias? a.name = some a :=
    (find?_name_eq_some_iff h.aliases).mpr ⟨ha, rfl⟩
  rw [lookup?, hfind]

/-- The name of an operation finds the operation, since no alias has that name. -/
theorem lookup?_operation (h : service.NamesApart) {name : String} {op : Operation Call}
    (hop : service.operation? name = some op) : service.lookup? name = some (.ofOperation op) := by
  have hname : name ∈ service.operationNames := by
    have heq : op.name = name := by simpa using List.find?_some hop
    exact heq ▸ List.mem_map_of_mem (List.mem_of_find?_eq_some hop)
  have hfind : service.alias? name = none := by
    refine List.find?_eq_none.mpr fun a ha hsame => ?_
    have heq : a.name = name := by simpa using hsame
    exact h.apart a ha (heq ▸ hname)
  rw [lookup?, hfind, hop]
  rfl

/-- An alias is resolved to the operation it names, with the arguments laid over its own, and
the name of that operation is resolved to the same operation. -/
theorem resolve_alias (h : service.NamesApart) {a : Alias} (ha : a ∈ service.aliases)
    (arguments : Arguments) :
    ∃ op, service.resolve a.name arguments
        = .ok ⟨op, some a, Arguments.merge a.arguments arguments⟩ ∧
      ∀ others, service.resolve a.operation others = .ok ⟨op, none, others⟩ := by
  obtain ⟨op, hop⟩ := exists_operation? (h.targets a ha)
  refine ⟨op, ?_, fun others => ?_⟩
  · simp only [resolve, lookup?_alias h ha, hop]
  · simp only [resolve, lookup?_operation h hop]

end Service
end DeclaredApi
