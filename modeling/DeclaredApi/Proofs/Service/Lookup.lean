import DeclaredApi.Proofs.Service.Names
import Mathlib.Data.List.Perm.Basic

/-!
# `DeclaredApi.Proofs.Service.Lookup`: what the names of an accepted service mean

Looking a name up takes the first declaration that has it, and aliases go before operations. In
an accepted service there is at most one such declaration, so neither rule is ever needed:

* `lookup?_eq_ofAlias_iff`, `lookup?_eq_ofOperation_iff`, `lookup?_eq_none_iff`: a name means the
  declaration that has it, of whichever kind, and nothing else;
* `resolve_eq_error_iff`: a name is refused exactly when no declaration has it, so no alias of an
  accepted service is ever found dangling;
* `Reordered.check`, `Reordered.lookup?_eq`: the same declarations in another order are accepted
  too, and each name means what it meant before.

`names_unambiguous` is the sum of these for an accepted service.
-/

set_option autoImplicit false

namespace DeclaredApi.Service

variable {service other : Service} {name : String} {arguments : Arguments}

/-! ### The declaration that a name means -/

/-- The name of an operation finds that operation and no other. -/
theorem operation?_eq_some_iff (h : service.NamesApart) {op : Operation Call} :
    service.operation? name = some op ↔ op ∈ service.operations ∧ op.name = name :=
  find?_name_eq_some_iff h.operations

/-- An alias is found under its name, and no other one is. -/
theorem alias?_eq_some_iff (h : service.NamesApart) {a : Alias} :
    service.alias? name = some a ↔ a ∈ service.aliases ∧ a.name = name :=
  find?_name_eq_some_iff h.aliases

/-- No operation is found exactly under the names that none has. -/
theorem operation?_eq_none_iff :
    service.operation? name = none ↔ name ∉ service.operationNames := by
  simp [operation?, operationNames, List.find?_eq_none]

/-- No alias is found exactly under the names that none has. -/
theorem alias?_eq_none_iff :
    service.alias? name = none ↔ name ∉ service.aliases.map (·.name) := by
  simp [alias?, List.find?_eq_none]

/-- A name means an alias exactly when the alias has that name. -/
theorem lookup?_eq_ofAlias_iff (h : service.NamesApart) {a : Alias} :
    service.lookup? name = some (.ofAlias a) ↔ a ∈ service.aliases ∧ a.name = name := by
  rw [← alias?_eq_some_iff h, lookup?]
  cases service.alias? name with
  | some found => simp
  | none => simp

/-- A name means an operation exactly when the operation has that name: no alias is in its way. -/
theorem lookup?_eq_ofOperation_iff (h : service.NamesApart) {op : Operation Call} :
    service.lookup? name = some (.ofOperation op) ↔ op ∈ service.operations ∧ op.name = name := by
  rw [← operation?_eq_some_iff h]
  constructor
  · intro hlookup
    rw [lookup?] at hlookup
    split at hlookup
    · cases hlookup
    · simpa using hlookup
  · intro hop
    exact lookup?_operation h hop

/-- A name means nothing exactly when no declaration has it. -/
theorem lookup?_eq_none_iff :
    service.lookup? name = none ↔
      name ∉ service.operationNames ∧ name ∉ service.aliases.map (·.name) := by
  rw [← alias?_eq_none_iff, ← operation?_eq_none_iff, lookup?]
  cases service.alias? name with
  | some found => simp
  | none => simp

/-! ### Resolving a name -/

/-- A name is refused exactly when no declaration has it, and with the names there are. -/
theorem resolve_eq_error_iff (h : service.NamesApart) {e : CallError} :
    service.resolve name arguments = .error e ↔
      (name ∉ service.operationNames ∧ name ∉ service.aliases.map (·.name)) ∧
        e = .unknownName name service.name service.visibleAliasNames service.operationNames := by
  rw [← lookup?_eq_none_iff, resolve]
  cases hlookup : service.lookup? name with
  | none => simp [eq_comm]
  | some target =>
      cases target with
      | ofOperation op => simp
      | ofAlias a =>
          -- The alias was declared, so the operation it names was, too.
          obtain ⟨ha, -⟩ := (lookup?_eq_ofAlias_iff h).mp hlookup
          obtain ⟨op, hop⟩ := exists_operation? (h.targets a ha)
          simp [hop]

/-- The operation that an alias names is there, and it is the only one of that name. -/
theorem existsUnique_operation (h : service.NamesApart) {a : Alias} (ha : a ∈ service.aliases) :
    ∃! op, op ∈ service.operations ∧ op.name = a.operation := by
  obtain ⟨op, hop⟩ := exists_operation? (h.targets a ha)
  refine ⟨op, (operation?_eq_some_iff h).mp hop, fun op' hop' => ?_⟩
  exact Option.some.inj (((operation?_eq_some_iff h).mpr hop').symm.trans hop)

/-! ### The order of the declarations -/

/-- The same service with its operations and aliases declared in another order. -/
structure Reordered (service other : Service) : Prop where
  name : other.name = service.name
  baseUrl : other.baseUrl = service.baseUrl
  credentials : other.credentials = service.credentials
  endpoints : other.endpoints.Perm service.endpoints
  graphqlOperations : other.graphqlOperations.Perm service.graphqlOperations
  aliases : other.aliases.Perm service.aliases

namespace Reordered

/-- A reordered service has the same operations. -/
theorem operations (h : service.Reordered other) : other.operations.Perm service.operations :=
  (h.endpoints.map _).append (h.graphqlOperations.map _)

/-- A reordered service has the same names of operations. -/
theorem operationNames (h : service.Reordered other) :
    other.operationNames.Perm service.operationNames :=
  h.operations.map _

/-- The rules do not ask for an order. -/
theorem check (h : service.Reordered other) (hcheck : service.check = .ok ()) :
    other.check = .ok () := by
  obtain ⟨hname, hhttp, hsome, hone, hops, hapart⟩ := check_eq_ok_iff.mp hcheck
  have hendpoints := h.endpoints.isEmpty_eq
  have hgraphql := h.graphqlOperations.isEmpty_eq
  refine check_eq_ok_iff.mpr ⟨?_, ?_, ?_, ?_, ?_, ?_⟩
  · rw [h.name]
    exact hname
  · rw [h.baseUrl]
    exact hhttp
  · rw [hendpoints, hgraphql]
    exact hsome
  · rw [hendpoints, hgraphql]
    exact hone
  · intro op hop
    exact hops op (h.operations.mem_iff.mp hop)
  · refine ⟨h.operationNames.nodup_iff.mpr hapart.operations,
      (h.aliases.map _).nodup_iff.mpr hapart.aliases, fun a ha => ?_, fun a ha => ?_⟩
    · rw [h.operationNames.mem_iff]
      exact hapart.apart a (h.aliases.mem_iff.mp ha)
    · rw [h.operationNames.mem_iff]
      exact hapart.targets a (h.aliases.mem_iff.mp ha)

/-- A name means the same whatever the order of the declarations. -/
theorem lookup?_eq (h : service.Reordered other) (hservice : service.NamesApart)
    (hother : other.NamesApart) (name : String) : other.lookup? name = service.lookup? name := by
  refine Option.ext fun target => ?_
  cases target with
  | ofAlias a =>
      rw [lookup?_eq_ofAlias_iff hother, lookup?_eq_ofAlias_iff hservice, h.aliases.mem_iff]
  | ofOperation op =>
      rw [lookup?_eq_ofOperation_iff hother, lookup?_eq_ofOperation_iff hservice,
        h.operations.mem_iff]

/-- A reordered service finds the same operation under every name, if names are apart. -/
theorem operation?_eq (h : service.Reordered other) (hservice : service.NamesApart)
    (hother : other.NamesApart) (name : String) :
    other.operation? name = service.operation? name := by
  refine Option.ext fun op => ?_
  rw [operation?_eq_some_iff hother, operation?_eq_some_iff hservice, h.operations.mem_iff]

/-- A name is resolved alike whatever the order. Only the help for a name without a meaning
lists the names in their order. -/
theorem resolve_eq_ok_iff (h : service.Reordered other) (hservice : service.NamesApart)
    (hother : other.NamesApart) {r : Resolution} :
    other.resolve name arguments = .ok r ↔ service.resolve name arguments = .ok r := by
  unfold resolve
  rw [h.lookup?_eq hservice hother]
  cases service.lookup? name with
  | none => simp
  | some target =>
      cases target with
      | ofOperation op => simp
      | ofAlias a =>
          simp only
          rw [h.operation?_eq hservice hother]
          cases service.operation? a.operation with
          | some op => simp
          | none => simp

end Reordered

/-- Every name of an accepted service means one thing. The name of an operation is looked up and
resolved to that operation, and the name of an alias to that alias and to the one operation it
names. A name is refused exactly when neither has it, so an alias never dangles. The same
declarations in another order are accepted, too, and give every name the same meaning. -/
theorem names_unambiguous (h : service.check = .ok ()) :
    (∀ op ∈ service.operations, service.lookup? op.name = some (.ofOperation op) ∧
      ∀ arguments, service.resolve op.name arguments = .ok ⟨op, none, arguments⟩) ∧
    (∀ a ∈ service.aliases, service.lookup? a.name = some (.ofAlias a) ∧
      ∃ op, (∀ op', op' ∈ service.operations ∧ op'.name = a.operation ↔ op' = op) ∧
        ∀ arguments, service.resolve a.name arguments
          = .ok ⟨op, some a, Arguments.merge a.arguments arguments⟩) ∧
    (∀ name arguments, (∃ e, service.resolve name arguments = .error e) ↔
      name ∉ service.operationNames ∧ name ∉ service.aliases.map (·.name)) ∧
    (∀ name arguments a service' target operations, service.resolve name arguments
      ≠ .error (.danglingAlias a service' target operations)) ∧
    ∀ other, service.Reordered other → other.check = .ok () ∧
      ∀ name, other.lookup? name = service.lookup? name ∧
        ∀ arguments r, other.resolve name arguments = .ok r ↔
          service.resolve name arguments = .ok r := by
  have hapart := namesApart_of_check h
  refine ⟨fun op hop => ?_, fun a ha => ⟨lookup?_alias hapart ha, ?_⟩, fun name arguments => ?_,
    ?_, fun other hother => ?_⟩
  · have hlookup := (lookup?_eq_ofOperation_iff hapart).mpr ⟨hop, rfl⟩
    refine ⟨hlookup, fun arguments => ?_⟩
    simp only [resolve, hlookup]
  · obtain ⟨op, hop, hunique⟩ := existsUnique_operation hapart ha
    refine ⟨op, fun op' => ⟨hunique op', fun heq => heq ▸ hop⟩, fun arguments => ?_⟩
    have hoperation := (operation?_eq_some_iff hapart).mpr hop
    simp only [resolve, lookup?_alias hapart ha, hoperation]
  · simp only [resolve_eq_error_iff hapart, exists_and_left, exists_eq, and_true]
  · intro name arguments a service' target operations herror
    obtain ⟨-, heq⟩ := (resolve_eq_error_iff hapart).mp herror
    cases heq
  · -- The reordered service passes the check too, so names are apart in both.
    have hcheck := hother.check h
    have hapart' := namesApart_of_check hcheck
    exact ⟨hcheck, fun name => ⟨hother.lookup?_eq hapart hapart' name,
      fun arguments r => hother.resolve_eq_ok_iff hapart hapart'⟩⟩

/-- An endpoint that lists what is at the path of its name. -/
def listing (name : String) : Endpoint :=
  { name, call := ⟨.get, "/" ++ name⟩ }

/-- An alias for the list of issues. -/
def openIssues : Alias :=
  { name := "open", operation := "issues" }

/-- A service with the endpoints in the given order and one alias. -/
def trackerService (endpoints : List Endpoint) : Service :=
  { name := "svc", baseUrl := "http://h", endpoints, aliases := [openIssues] }

/-- The service of the example keeps the rules. -/
theorem check_trackerService :
    (trackerService [listing "issues", listing "users"]).check = .ok () := by
  have hlisting : ∀ name, Text.isBlankString name = false →
      ((listing name).mapCall .rest).check = .ok () := by
    intro name hname
    refine Operation.check_eq_ok_iff.mpr ⟨hname, ?_, fun hcached => by cases hcached⟩
    simp [Operation.template?, Operation.mapCall, listing]
  refine check_eq_ok_iff.mpr ⟨by decide, by simp [trackerService], rfl, rfl, ?_, ?_⟩
  · intro op hop
    rcases List.mem_pair.1 hop with rfl | rfl
    · exact hlisting "issues" (by decide)
    · exact hlisting "users" (by decide)
  · refine ⟨by decide, by decide, ?_, ?_⟩
    · simp [operationNames, operations, trackerService, listing, openIssues, Operation.mapCall]
    · simp [operationNames, operations, trackerService, listing, openIssues, Operation.mapCall]

/-- The alias is found and leads to the issues, a name that was not declared is refused, and the
users are found in either order of the endpoints. -/
theorem names_of_trackerService :
    (trackerService [listing "issues", listing "users"]).check = .ok () ∧
    (trackerService [listing "issues", listing "users"]).lookup? "open"
      = some (.ofAlias openIssues) ∧
    (∃ e, (trackerService [listing "issues", listing "users"]).resolve "closed" [] = .error e) ∧
    (trackerService [listing "users", listing "issues"]).check = .ok () ∧
    (trackerService [listing "users", listing "issues"]).lookup? "users"
      = (trackerService [listing "issues", listing "users"]).lookup? "users" := by
  obtain ⟨-, haliases, herror, -, horder⟩ := names_unambiguous check_trackerService
  have hunknown := (herror "closed" []).mpr (by
    simp [operationNames, operations, trackerService, listing, openIssues, Operation.mapCall])
  obtain ⟨hcheck, hlookup⟩ := horder (trackerService [listing "users", listing "issues"])
    ⟨rfl, rfl, rfl, List.Perm.swap _ _ _, List.Perm.refl _, List.Perm.refl _⟩
  exact ⟨check_trackerService, (haliases openIssues List.mem_cons_self).1, hunknown, hcheck,
    (hlookup "users").1⟩

end DeclaredApi.Service
