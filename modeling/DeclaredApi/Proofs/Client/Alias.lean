import DeclaredApi.Client.Basic
import DeclaredApi.Proofs.Service.Names

/-!
# `DeclaredApi.Proofs.Client.Alias`: an alias is its operation with more arguments

For an accepted service, calling an alias is calling the operation it names with the caller's
arguments laid over the alias's own (`call_alias`). It is the same call in every respect: the
request or the error, the answer, what the server was sent, and the cache afterwards. So help
texts, keys and transforms never depend on which of the two names was used.

The proof has two parts. A name is resolved to an operation and arguments, and an accepted
service resolves both names alike (`resolve_alias`). All that follows looks at the operation and
the arguments only (`prepare_eq_of_resolve`).
-/

set_option autoImplicit false

namespace DeclaredApi

variable {service : Service}

/-- Names that are resolved to one operation with the same arguments have the same request. -/
theorem Service.prepare_eq_of_resolve {name name' : String} {arguments arguments' : Arguments}
    {r r' : Resolution} (h : service.resolve name arguments = .ok r)
    (h' : service.resolve name' arguments' = .ok r') (hoperation : r.operation = r'.operation)
    (harguments : r.arguments = r'.arguments) (authenticate : Authenticator) (strict : Bool) :
    service.prepare authenticate name arguments strict
      = service.prepare authenticate name' arguments' strict := by
  -- The alias that a name went through is in the resolution, but nothing asks for it.
  obtain ⟨operation, _, resolved⟩ := r
  obtain ⟨operation', _, resolved'⟩ := r'
  obtain rfl : operation = operation' := hoperation
  obtain rfl : resolved = resolved' := harguments
  simp only [prepare, h, h']
  rfl

/-- Names with the same request are called alike, on every client. -/
theorem Client.call_eq_of_prepare {authenticate : Authenticator} {options : CallOptions}
    {name name' : String} {arguments arguments' : Arguments}
    (h : service.prepare authenticate name arguments options.strict
      = service.prepare authenticate name' arguments' options.strict)
    (client : Client) (times : CallTimes) :
    client.call authenticate service times options name arguments
      = client.call authenticate service times options name' arguments' := by
  simp only [call, h]

/-- An alias of an accepted service has the same request, or the same error, as the operation it
names with the arguments laid over the alias's own. A call of either goes the same way and leaves
the same client. -/
theorem call_alias (hcheck : service.check = .ok ()) {a : Alias} (ha : a ∈ service.aliases)
    (authenticate : Authenticator) (arguments : Arguments) :
    (∀ strict, service.prepare authenticate a.name arguments strict
      = service.prepare authenticate a.operation (Arguments.merge a.arguments arguments) strict) ∧
    ∀ (client : Client) (times : CallTimes) (options : CallOptions),
      client.call authenticate service times options a.name arguments
        = client.call authenticate service times options a.operation
          (Arguments.merge a.arguments arguments) := by
  obtain ⟨op, halias, hoperation⟩ :=
    Service.resolve_alias (Service.namesApart_of_check hcheck) ha arguments
  have hprepare : ∀ strict, service.prepare authenticate a.name arguments strict
      = service.prepare authenticate a.operation (Arguments.merge a.arguments arguments) strict :=
    Service.prepare_eq_of_resolve halias (hoperation _) rfl rfl authenticate
  refine ⟨hprepare, fun client times options => ?_⟩
  exact Client.call_eq_of_prepare (hprepare options.strict) client times

/-- An alias that asks for open issues. -/
def openAlias : Alias :=
  { name := "open", operation := "issues"
    arguments := [("filter", .object [("state", .string "open")])] }

/-- A service with a list of issues and an alias for the open ones. -/
def issuesService : Service :=
  { name := "svc", baseUrl := "http://h"
    endpoints := [{ name := "issues", call := ⟨.post, "/issues"⟩ }]
    aliases := [openAlias] }

/-- The service of the example keeps the rules. -/
theorem check_issuesService : issuesService.check = .ok () := by
  refine Service.check_eq_ok_iff.mpr
    ⟨by decide, by simp [issuesService], rfl, rfl, ?_, ⟨by decide, by decide, by decide, by decide⟩⟩
  intro op hop
  obtain rfl := List.mem_singleton.1 hop
  exact Operation.check_eq_ok_iff.mpr ⟨by decide, by simp [Operation.template?, Operation.mapCall],
    fun hcached => by cases hcached⟩

/-- A client for which the server has one answer. -/
def issuesClient : Client :=
  { server := { answers := [.ok ⟨200, .array []⟩] } }

/-- The alias's part of the filter is sent with the caller's. -/
theorem call_openAlias : issuesService.check = .ok () ∧ openAlias ∈ issuesService.aliases ∧
    issuesClient.call .anonymous issuesService ⟨0, 0⟩ {} "open"
        [("filter", .object [("label", .string "bug")])]
      = issuesClient.call .anonymous issuesService ⟨0, 0⟩ {} "issues"
        [("filter", .object [("label", .string "bug"), ("state", .string "open")])] := by
  have halias : openAlias ∈ issuesService.aliases := List.mem_cons_self
  refine ⟨check_issuesService, halias, ?_⟩
  exact (call_alias check_issuesService halias .anonymous
    [("filter", .object [("label", .string "bug")])]).2 issuesClient ⟨0, 0⟩ {}

end DeclaredApi
