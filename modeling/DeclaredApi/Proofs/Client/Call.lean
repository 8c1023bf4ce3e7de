import DeclaredApi.Client.Basic
import DeclaredApi.Proofs.Except
import Mathlib.Tactic.Common

/-!
# `DeclaredApi.Proofs.Client.Call`: what one call does

A call that may use the cache takes one of four courses (`callCached_cases`): the read of the
cache fails, the read finds a body, the request is sent and its answer is not accepted, or
the answer is accepted and its body is stored. The server is touched in the last two courses
only, once, with the prepared request. A call that may not use the cache leaves it alone
(`callUncached_cache`).

The operation of a prepared request is the one of its name (`prepare_operation`), so calls of
one service with one operation name agree in everything the operation declares.
-/

set_option autoImplicit false

namespace DeclaredApi

/-- The response that a call accepts: one with success and without GraphQL errors. -/
def Operation.accepted? (op : Operation Call) : Answer → Option Response
  | .ok response =>
    if response.isSuccess ∧ op.graphqlErrors? response.body = none then some response else none
  | .error _ => none

/-- An answer is taken for one request. -/
theorem exchange_requests (server : Server) (request : Request) :
    (server.exchange request).2.requests = request :: server.requests := by
  unfold Server.exchange
  split <;> rfl

namespace Client

/-- Sending takes one answer from the server. If it is accepted it is the result. -/
theorem send_cases (client : Client) (prepared : Prepared) :
    (∃ response,
      prepared.operation.accepted? (client.server.exchange prepared.request).1 = some response ∧
      client.send prepared
        = (.ok response, { client with server := (client.server.exchange prepared.request).2 })) ∨
    (prepared.operation.accepted? (client.server.exchange prepared.request).1 = none ∧
      ∃ e, client.send prepared
        = (.error e, { client with server := (client.server.exchange prepared.request).2 })) := by
  unfold send
  generalize client.server.exchange prepared.request = exchanged
  obtain ⟨_ | response, server⟩ := exchanged
  · exact Or.inr ⟨rfl, _, rfl⟩
  · simp only [Operation.accepted?]
    -- A failed status is an error whatever the body says.
    by_cases hsuccess : response.isSuccess
    · cases herrors : prepared.operation.graphqlErrors? response.body with
      | none => exact Or.inl ⟨response, by simp [hsuccess], by simp [hsuccess]⟩
      | some errors => exact Or.inr ⟨by simp, .graphql errors, by simp [hsuccess]⟩
    · exact Or.inr ⟨by simp [hsuccess], .status response, by simp [hsuccess]⟩

/-- A call that may not use the cache leaves it alone, and its outcome is not from there. -/
theorem callUncached_cache (client : Client) (prepared : Prepared) :
    (client.callUncached prepared).2.cache = client.cache ∧
      ∀ outcome, (client.callUncached prepared).1 = .ok outcome → outcome.cached = false := by
  unfold callUncached
  rcases send_cases client prepared with ⟨response, -, hsend⟩ | ⟨-, e, hsend⟩
  · rw [hsend]
    refine ⟨rfl, fun outcome h => ?_⟩
    cases h
    rfl
  · rw [hsend]
    exact ⟨rfl, fun outcome h => by cases h⟩

/-- A call that may not use the cache sends its request. -/
theorem callUncached_server (client : Client) (prepared : Prepared) :
    (client.callUncached prepared).2.server = (client.server.exchange prepared.request).2 := by
  unfold callUncached
  rcases send_cases client prepared with ⟨response, -, hsend⟩ | ⟨-, e, hsend⟩
  · rw [hsend]
    rfl
  · rw [hsend]

/-- The four courses of a call that may use the cache. -/
theorem callCached_cases (client : Client) (cache : Cache) (prepared : Prepared) (key : String)
    (ttl : UInt64) (times : CallTimes) :
    (∃ e, (cache.get times.asked key).1 = .error e ∧
      client.callCached cache prepared key ttl times
        = (.error (.cache e), { client with cache := some (cache.get times.asked key).2 })) ∨
    (∃ body, (cache.get times.asked key).1 = .ok (some body) ∧
      client.callCached cache prepared key ttl times
        = { client with cache := some (cache.get times.asked key).2 }.deliver prepared.operation
            200 true body) ∨
    ((cache.get times.asked key).1 = .ok none ∧
      prepared.operation.accepted? (client.server.exchange prepared.request).1 = none ∧
      ∃ e, client.callCached cache prepared key ttl times
        = (.error e, { client with
            server := (client.server.exchange prepared.request).2
            cache := some (cache.get times.asked key).2 })) ∨
    ((cache.get times.asked key).1 = .ok none ∧
      ∃ response,
        prepared.operation.accepted? (client.server.exchange prepared.request).1
          = some response ∧
        (client.callCached cache prepared key ttl times).2.cache
          = some ((cache.get times.asked key).2.set times.stored key response.body ttl).2 ∧
        (client.callCached cache prepared key ttl times).2.server
          = (client.server.exchange prepared.request).2 ∧
        ∀ outcome, (client.callCached cache prepared key ttl times).1 = .ok outcome →
          outcome.cached = false) := by
  unfold callCached
  generalize cache.get times.asked key = read
  obtain ⟨e | found, after⟩ := read
  · exact Or.inl ⟨e, rfl, rfl⟩
  cases found with
  | some body => exact Or.inr (Or.inl ⟨body, rfl, rfl⟩)
  | none =>
      rcases send_cases { client with cache := some after } prepared with
        ⟨response, haccepted, hsend⟩ | ⟨hrefused, e, hsend⟩
      · refine Or.inr (Or.inr (Or.inr ⟨rfl, response, haccepted, ?_⟩))
        simp only [hsend]
        -- The body is stored in memory even where the write to the file fails.
        generalize after.set times.stored key response.body ttl = stored
        obtain ⟨e | u, stored⟩ := stored
        · exact ⟨rfl, rfl, fun outcome h => by cases h⟩
        · refine ⟨rfl, rfl, fun outcome h => ?_⟩
          cases h
          rfl
      · exact Or.inr (Or.inr (Or.inl ⟨rfl, hrefused, e, by simp only [hsend]⟩))

end Client

/-! ### The operation of a prepared request -/

/-- A name is resolved to the operation that the service has under the operation's name. -/
theorem Service.resolve_operation {service : Service} {name : String} {arguments : Arguments}
    {resolution : Resolution} (h : service.resolve name arguments = .ok resolution) :
    service.operation? resolution.operation.name = some resolution.operation := by
  have hname : ∀ {name op}, service.operation? name = some op →
      service.operation? op.name = some op := by
    intro name op hfind
    have heq : op.name = name := by simpa using List.find?_some hfind
    rw [heq, hfind]
  unfold resolve at h
  split at h
  · next a _ =>
      -- An alias goes to the operation it names, if there is one.
      split at h
      · next op hop =>
          cases h
          exact hname hop
      · cases h
  · next op hlookup =>
      cases h
      unfold lookup? at hlookup
      split at hlookup
      · cases hlookup
      · obtain ⟨found, hfind, heq⟩ := Option.map_eq_some_iff.1 hlookup
        cases heq
        exact hname hfind
  · cases h

section Prepare

variable {service : Service} {authenticate : Authenticator} {name : String}
  {arguments : Arguments} {strict : Bool} {prepared : Prepared}

/-- What is prepared is the request of the operation that the name is resolved to, with the
arguments in its parts, with a content type and with credentials. -/
theorem Service.exists_of_prepare
    (h : service.prepare authenticate name arguments strict = .ok prepared) :
    ∃ resolution parts, service.resolve name arguments = .ok resolution ∧
      Arguments.parts resolution.operation (.ofOperation resolution.operation)
        (Arguments.merge resolution.operation.defaults resolution.arguments) = .ok parts ∧
      prepared.operation = resolution.operation ∧
      prepared.request = authenticate service
        (service.request resolution.operation parts).withContentType := by
  -- Resolving, checking and filling in come first, and each of them can fail.
  obtain ⟨resolution, hresolve, h⟩ := exists_of_bind_ok h
  obtain ⟨_, _, h⟩ := exists_of_bind_ok h
  obtain ⟨parts, hparts, h⟩ := exists_of_bind_ok h
  cases h
  refine ⟨resolution, parts, hresolve, ?_, rfl, rfl⟩
  -- A report would have been the error of the call.
  cases hmade : Arguments.parts resolution.operation (.ofOperation resolution.operation)
      (Arguments.merge resolution.operation.defaults resolution.arguments) with
  | error report =>
      rw [hmade] at hparts
      cases hparts
  | ok made =>
      rw [hmade] at hparts
      cases hparts
      rfl

/-- A request is prepared where the name is resolved and the arguments are valid and fill the
parts of the request. -/
theorem Service.prepare_of_parts {resolution : Resolution} {parts : RequestParts}
    (hresolve : service.resolve name arguments = .ok resolution)
    (hrequire : Arguments.require (.ofOperation resolution.operation)
      (Arguments.merge resolution.operation.defaults resolution.arguments) strict = .ok ())
    (hparts : Arguments.parts resolution.operation (.ofOperation resolution.operation)
      (Arguments.merge resolution.operation.defaults resolution.arguments) = .ok parts) :
    service.prepare authenticate name arguments strict = .ok {
      operation := resolution.operation
      request := authenticate service
        (service.request resolution.operation parts).withContentType } := by
  simp only [Service.prepare, hresolve]
  show (Arguments.require _ _ _ >>= _) = _
  rw [hrequire]
  show ((Arguments.parts _ _ _).mapError _ >>= _) = _
  rw [hparts]
  rfl

/-- What is prepared for a service has one of the service's operations. -/
theorem Service.prepare_operation
    (h : service.prepare authenticate name arguments strict = .ok prepared) :
    service.operation? prepared.operation.name = some prepared.operation := by
  obtain ⟨resolution, _, hresolve, -, hoperation, -⟩ := Service.exists_of_prepare h
  rw [hoperation]
  exact Service.resolve_operation hresolve

end Prepare

end DeclaredApi
