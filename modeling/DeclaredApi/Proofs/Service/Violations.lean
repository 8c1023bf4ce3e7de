import DeclaredApi.Proofs.Service.Names

/-!
# `DeclaredApi.Proofs.Service.Violations`: what a refused service has done wrong

`Service.violations` lists all rules that a service breaks, in the order in which they are gone
through. The list is made without a stop and keeps no names: whether a name comes twice is told by
the names that are declared before it.

`Service.check` answers with the first of the list (`check_eq_firstOf`). Its two loops keep the
names that they have seen, and `eq_firstOf_of_loop` is about both of them: where the names kept are
those declared before, each round finds what the list has for its item.

The services that are accepted are spelled out as `WellFormed` (`check_eq_ok_iff_wellFormed`), so
these are the ones that break no rule (`violations_eq_nil_iff`). `check_tells` says what is
accepted and what is answered for the rest.
-/

set_option autoImplicit false

namespace DeclaredApi

/-! ### The first of a list of faults -/

/-- The fault, where a rule is broken. -/
def faultWhen (broken : Bool) (fault : ServiceFault) : List ServiceFault :=
  if broken then [fault] else []

/-- The answer of a check that has found these faults. -/
def firstOf : List ServiceFault → Except ServiceFault Unit
  | [] => .ok ()
  | fault :: _ => .error fault

/-- A single check refuses with its fault or finds nothing. -/
theorem refuseIf_eq_firstOf (broken : Bool) (fault : ServiceFault) :
    refuseIf broken fault = firstOf (faultWhen broken fault) := by
  cases broken <;> rfl

/-- What is checked next counts only where no fault has been found. -/
theorem firstOf_append (found next : List ServiceFault) :
    firstOf (found ++ next) = (firstOf found >>= fun _ => firstOf next) := by
  cases found <;> rfl

/-- There is no first fault exactly if there is none. -/
theorem firstOf_eq_ok_iff {found : List ServiceFault} : firstOf found = .ok () ↔ found = [] := by
  cases found <;> simp [firstOf]

/-- The first fault is the one at the head. -/
theorem firstOf_eq_error_iff {found : List ServiceFault} {fault : ServiceFault} :
    firstOf found = .error fault ↔ found.head? = some fault := by
  cases found <;> simp [firstOf]

/-! ### The rules that a service breaks -/

/-- The rules that an operation breaks by itself. -/
def Operation.violations (op : Operation Call) : List ServiceFault :=
  faultWhen (Text.isBlankString op.name) .blankOperationName ++
  faultWhen (op.template?.any (¬ ·.startsWith "/")) (.relativePath op.name) ++
  faultWhen (op.cacheSeconds.isSome && ¬ op.isRead) (.cachedWrite op.name)

/-- The rules that an operation breaks where others with the names `before` are declared before
it. -/
def Operation.violationsAfter (before : List String) (op : Operation Call) : List ServiceFault :=
  op.violations ++ faultWhen (op.name ∈ before) (.duplicateOperation op.name)

/-- The rules that an alias breaks where there are these operations, and others with the names
`before` are declared before it. -/
def Alias.violationsAfter (operations before : List String) (a : Alias) : List ServiceFault :=
  faultWhen (a.name ∈ before) (.duplicateAlias a.name) ++
  faultWhen (a.name ∈ operations) (.aliasCollision a.name) ++
  faultWhen (a.operation ∉ operations) (.unknownTarget a.name a.operation)

/-- What the items of a list have, each told by the names before it. -/
def eachAfter {α : Type} (nameOf : α → String)
    (violationsAfter : List String → α → List ServiceFault) (items : List α) :
    List ServiceFault :=
  items.zipIdx.flatMap fun entry => violationsAfter ((items.map nameOf).take entry.2) entry.1

namespace Service

/-- All rules that a service breaks: its own, those of its operations and those of its aliases. -/
def violations (service : Service) : List ServiceFault :=
  faultWhen (Text.isBlankString service.name) .blankServiceName ++
  faultWhen (¬ service.baseUrl.startsWith "http://" && ¬ service.baseUrl.startsWith "https://")
    .notHttp ++
  faultWhen (service.endpoints.isEmpty && service.graphqlOperations.isEmpty) .noOperations ++
  faultWhen (¬ service.endpoints.isEmpty && ¬ service.graphqlOperations.isEmpty) .bothKinds ++
  eachAfter (·.name) Operation.violationsAfter service.operations ++
  eachAfter (·.name) (Alias.violationsAfter service.operationNames) service.aliases

/-- A service that breaks no rule.

- `name`, `address`: it has a name, and an address of a web server;
- `kind`: its operations are of exactly one kind;
- `named`: its operations have names;
- `paths`: the path of an endpoint starts with a slash;
- `cachedEndpoints`, `cachedGraphql`: only responses of operations that read are kept;
- `operations`, `aliases`, `apart`, `targets`: every name means one thing. -/
structure WellFormed (service : Service) : Prop extends NamesApart service where
  name : ¬ Text.isBlankString service.name
  address : service.baseUrl.startsWith "http://" ∨ service.baseUrl.startsWith "https://"
  kind : service.endpoints ≠ [] ↔ service.graphqlOperations = []
  named : ∀ name ∈ service.operationNames, ¬ Text.isBlankString name
  paths : ∀ endpoint ∈ service.endpoints, endpoint.call.path.startsWith "/"
  cachedEndpoints : ∀ endpoint ∈ service.endpoints, endpoint.cacheSeconds ≠ none →
    endpoint.call.method = .get ∨ endpoint.call.method = .head
  cachedGraphql : ∀ operation ∈ service.graphqlOperations, operation.cacheSeconds ≠ none →
    operation.call.kind = .query

end Service

/-! ### The check finds the first -/

section

variable {α : Type} {nameOf : α → String} {violationsAfter : List String → α → List ServiceFault}
  {loop : List String → List α → Except ServiceFault Unit}

/-- A loop that keeps the names that it has seen finds what each item has after those before it. -/
theorem eq_firstOf_of_loop
    (hsame : ∀ {seen before item}, (∀ name, name ∈ seen ↔ name ∈ before) →
      violationsAfter seen item = violationsAfter before item)
    (hnil : ∀ seen, loop seen [] = .ok ())
    (hcons : ∀ seen item rest, loop seen (item :: rest)
      = (firstOf (violationsAfter seen item) >>= fun _ => loop (nameOf item :: seen) rest))
    (items : List α) : loop [] items = firstOf (eachAfter nameOf violationsAfter items) := by
  -- The names kept so far are those of the items that are done.
  suffices hrest : ∀ done rest seen, items = done ++ rest →
      (∀ name, name ∈ seen ↔ name ∈ done.map nameOf) →
      loop seen rest = firstOf ((rest.zipIdx done.length).flatMap fun entry =>
        violationsAfter ((items.map nameOf).take entry.2) entry.1) by
    exact hrest [] items [] rfl fun _ => Iff.rfl
  intro done rest
  induction rest generalizing done with
  | nil => exact fun seen _ _ => hnil seen
  | cons item rest ih =>
      intro seen hitems hseen
      have hbefore : (items.map nameOf).take done.length = done.map nameOf := by
        rw [hitems, List.map_append, List.take_left' (List.length_map ..)]
      have hlater := ih (done ++ [item]) (nameOf item :: seen) (by simp [hitems])
        (by simp [hseen, or_comm])
      rw [List.length_append, List.length_singleton] at hlater
      rw [hcons, hlater, List.zipIdx_cons, List.flatMap_cons, firstOf_append, hbefore, hsame hseen]

end

/-- The check of an operation answers with its first fault. -/
theorem Operation.check_eq_firstOf (op : Operation Call) : op.check = firstOf op.violations := by
  simp only [Operation.check, Operation.violations, firstOf_append, refuseIf_eq_firstOf, bind_assoc]

namespace Service

/-- The check of the operations answers with the first fault of the first one that has any. -/
theorem checkOperations_eq_firstOf (operations : List (Operation Call)) :
    checkOperations [] operations
      = firstOf (eachAfter (·.name) Operation.violationsAfter operations) := by
  refine eq_firstOf_of_loop ?same (fun _ => rfl) ?round operations
  case same =>
    intro seen before op hnames
    simp only [Operation.violationsAfter, hnames]
  case round =>
    intro seen op rest
    simp only [checkOperations, Operation.check_eq_firstOf, Operation.violationsAfter,
      firstOf_append, refuseIf_eq_firstOf, bind_assoc, List.contains_eq_mem]

/-- The check of the aliases answers with the first fault of the first one that has any. -/
theorem checkAliases_eq_firstOf (operations : List String) (aliases : List Alias) :
    checkAliases operations [] aliases
      = firstOf (eachAfter (·.name) (Alias.violationsAfter operations) aliases) := by
  refine eq_firstOf_of_loop ?same (fun _ => rfl) ?round aliases
  case same =>
    intro seen before a hnames
    simp only [Alias.violationsAfter, hnames]
  case round =>
    intro seen a rest
    simp only [checkAliases, Alias.violationsAfter, firstOf_append, refuseIf_eq_firstOf,
      bind_assoc, List.contains_eq_mem, decide_eq_true_eq]

variable {service : Service}

/-- The check answers with the first rule that is broken. -/
theorem check_eq_firstOf (service : Service) : service.check = firstOf service.violations := by
  simp only [check, violations, firstOf_append, refuseIf_eq_firstOf, checkOperations_eq_firstOf,
    checkAliases_eq_firstOf, bind_assoc]

/-- An endpoint keeps the rules when it has a name, a path from a slash on, and reads where its
responses are kept. -/
theorem check_endpoint_iff {endpoint : Endpoint} :
    (endpoint.mapCall Call.rest).check = .ok () ↔
      ¬ Text.isBlankString endpoint.name ∧ endpoint.call.path.startsWith "/" ∧
        (endpoint.cacheSeconds ≠ none →
          endpoint.call.method = .get ∨ endpoint.call.method = .head) := by
  rw [Operation.check_eq_ok_iff]
  simp [Operation.mapCall, Operation.template?, Operation.isRead, Option.isSome_iff_ne_none]

/-- A GraphQL operation keeps the rules when it has a name, and is a query where its responses are
kept. -/
theorem check_graphqlOperation_iff {operation : GraphqlOperation} :
    (operation.mapCall Call.graphql).check = .ok () ↔
      ¬ Text.isBlankString operation.name ∧
        (operation.cacheSeconds ≠ none → operation.call.kind = .query) := by
  rw [Operation.check_eq_ok_iff]
  simp [Operation.mapCall, Operation.template?, Operation.isRead, Option.isSome_iff_ne_none]

/-- What the operations of a service keep, told by their kinds. -/
theorem forall_operations_iff {P : Operation Call → Prop} :
    (∀ op ∈ service.operations, P op) ↔
      (∀ endpoint ∈ service.endpoints, P (endpoint.mapCall .rest)) ∧
        ∀ operation ∈ service.graphqlOperations, P (operation.mapCall .graphql) := by
  simp [operations, or_imp, forall_and]

/-- The check accepts the services that are well-formed. -/
theorem check_eq_ok_iff_wellFormed : service.check = .ok () ↔ service.WellFormed := by
  have hnamed : (∀ name ∈ service.operationNames, ¬ Text.isBlankString name) ↔
      (∀ endpoint ∈ service.endpoints, ¬ Text.isBlankString endpoint.name) ∧
        ∀ operation ∈ service.graphqlOperations, ¬ Text.isBlankString operation.name := by
    rw [operationNames, List.forall_mem_map, forall_operations_iff]
    rfl
  have hkind : (service.endpoints ≠ [] ↔ service.graphqlOperations = []) ↔
      (service.endpoints.isEmpty && service.graphqlOperations.isEmpty) = false ∧
        (service.endpoints.isEmpty || service.graphqlOperations.isEmpty) = true := by
    cases service.endpoints <;> cases service.graphqlOperations <;> simp
  rw [check_eq_ok_iff, forall_operations_iff]
  simp only [check_endpoint_iff, check_graphqlOperation_iff]
  constructor
  · rintro ⟨hname, haddress, hsome, hone, ⟨hendpoints, hgraphql⟩, hapart⟩
    exact { hapart with
      name := Bool.eq_false_iff.mp hname
      address := by simpa using haddress
      kind := hkind.mpr ⟨hsome, hone⟩
      named := hnamed.mpr ⟨fun e he => (hendpoints e he).1, fun o ho => (hgraphql o ho).1⟩
      paths := fun e he => (hendpoints e he).2.1
      cachedEndpoints := fun e he => (hendpoints e he).2.2
      cachedGraphql := fun o ho => (hgraphql o ho).2 }
  · intro h
    obtain ⟨hsome, hone⟩ := hkind.mp h.kind
    obtain ⟨hendpoints, hgraphql⟩ := hnamed.mp h.named
    refine ⟨Bool.eq_false_iff.mpr h.name, by simpa using h.address, hsome, hone, ⟨?_, ?_⟩,
      h.toNamesApart⟩
    · exact fun e he => ⟨hendpoints e he, h.paths e he, h.cachedEndpoints e he⟩
    · exact fun o ho => ⟨hgraphql o ho, h.cachedGraphql o ho⟩

/-- A service breaks no rule exactly if it is well-formed. -/
theorem violations_eq_nil_iff : service.violations = [] ↔ service.WellFormed := by
  rw [← check_eq_ok_iff_wellFormed, check_eq_firstOf, firstOf_eq_ok_iff]

/-- The check accepts exactly the services that are well-formed, and answers for any other with
the first rule that it breaks. -/
theorem check_tells (service : Service) :
    (service.check = .ok () ↔ service.WellFormed) ∧
      ∀ fault, service.check = .error fault ↔ service.violations.head? = some fault := by
  refine ⟨check_eq_ok_iff_wellFormed, fun fault => ?_⟩
  rw [check_eq_firstOf, firstOf_eq_error_iff]

end Service
end DeclaredApi
