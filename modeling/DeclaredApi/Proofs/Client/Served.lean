import DeclaredApi.Proofs.Client.Session
import DeclaredApi.Proofs.Service.Names
import DeclaredApi.Proofs.Template

/-!
# `DeclaredApi.Proofs.Client.Served`: which request a served response was fetched for

A response from the cache was fetched by an earlier call, maybe for another declaration of the
service. `served_alike` says how far the two requests agree. The session may call any
services, the file and the clock may be anything, and no two identities may share the part of
the digest that a key has (`DigestsApart`). Then the two requests agree in address and body,
and in every header that is no secret and to which neither gives two values. Of a header that is
given in several spellings they agree in the value of the last one.

The method is not part of an identity. It belongs to the declaration of the operation, so the
methods agree while the declaration is the same (`Alike.unswitched`), and with another
declaration when that keeps the method (`Alike.method`). `not_servesSame` has a session for
each of the two limits: a declaration that turns GET into HEAD, and a header in two spellings.
-/

set_option autoImplicit false

namespace DeclaredApi

/-- The method that requests of the operation are sent with. -/
def Operation.method (op : Operation Call) : Method :=
  match op.call with
  | .rest call => call.method
  | .graphql _ => .post

/-- The authenticator changes no method. -/
def Authenticator.KeepsMethod (authenticate : Authenticator) : Prop :=
  ∀ service request, (authenticate service request).method = request.method

/-- Declared credentials are added to the headers only. -/
theorem Authenticator.declared_keepsMethod : Authenticator.declared.KeepsMethod := by
  intro service request
  unfold declared
  split <;> rfl

/-- A prepared request has the method of its operation. -/
theorem Service.prepare_method {service : Service} {authenticate : Authenticator}
    (hkeeps : authenticate.KeepsMethod) {name : String} {arguments : Arguments} {strict : Bool}
    {prepared : Prepared}
    (h : service.prepare authenticate name arguments strict = .ok prepared) :
    prepared.request.method = prepared.operation.method := by
  obtain ⟨resolution, parts, -, -, hoperation, hrequest⟩ := Service.exists_of_prepare h
  rw [hrequest, hkeeps, hoperation]
  -- A content type is a header, so it leaves the method as it is.
  have htype : ∀ request : Request, request.withContentType.method = request.method := by
    intro request
    unfold Request.withContentType
    split <;> rfl
  rw [htype, Service.request, Operation.method]
  cases resolution.operation.call <;> rfl

namespace Session

open Cache (Entry Log Backed Sends OneValue SendAlike secretHeaders shortDigest)

variable {authenticate : Authenticator} {client : Client} {cache : Cache} {steps : List Step}

/-- What the key of a call is the digest of. -/
def CachedCall.identity (call : CachedCall) : Json :=
  Cache.identity call.service.name call.prepared.operation.name call.prepared.request.url
    call.prepared.request.headers call.prepared.request.body

/-- No two calls of the session have different identities with the same short digest. -/
def DigestsApart (authenticate : Authenticator) (steps : List Step) : Prop :=
  ∀ step ∈ steps, ∀ step' ∈ steps, ∀ call call',
    step.cachedCall? authenticate = some call → step'.cachedCall? authenticate = some call' →
    shortDigest call.identity = shortDigest call'.identity →
    call.identity.render = call'.identity.render

/-- After the events of `history`, the call of `hit` is answered with what the call of `source`
fetched.

- `hitCall`, `sourceCall`, `key`: the two calls, which have one key;
- `latest`: no later event stored under the key or cleared it;
- `sent`: the earlier call sent its request, and nothing else;
- `answer`: the answer was accepted, and its body, in the shape of the later operation, is what
  the later call is answered with from the cache. -/
structure ServedBy (authenticate : Authenticator) (history : List Event) (hit source : Event)
    (served fetched : CachedCall) : Prop where
  hitCall : hit.step.cachedCall? authenticate = some served
  sourceCall : source.step.cachedCall? authenticate = some fetched
  key : served.key = fetched.key
  latest : ∃ before later, history = before ++ source :: later ∧
    ∀ e ∈ later, ¬ e.Clears served.key ∧
      ∀ entry, e.stored? authenticate ≠ some (served.key, entry)
  sent : source.after.server.requests
    = fetched.prepared.request :: source.before.server.requests
  answer : ∃ response,
    fetched.prepared.operation.accepted?
      (source.before.server.exchange fetched.prepared.request).1 = some response ∧
    hit.answer? = some (.ok {
      operation := served.prepared.operation.name, status := 200, cached := true
      data := (pipeline served.prepared.operation.steps response.body).value })

/-- The requests of two calls agree as far as the identity of a request goes.

- `url`, `body`: they go to the same address with the same body;
- `headers`: a header that is no secret, and to which neither request gives two values, has the
  same value in both, or is in neither;
- `last`: a header that is no secret has the same value in both, or is in neither, if of its
  spellings in a request only the last one counts;
- `method`: they have the same method if their operations do;
- `unswitched`: they have the same method if they were made from the same declaration. -/
structure Alike (a b : CachedCall) : Prop where
  url : a.prepared.request.url = b.prepared.request.url
  body : a.prepared.request.body = b.prepared.request.body
  headers : ∀ name ∉ secretHeaders, OneValue a.prepared.request.headers name →
    OneValue b.prepared.request.headers name → ∀ value,
    Sends a.prepared.request.headers name value ↔ Sends b.prepared.request.headers name value
  last : Dict.Sorted a.prepared.request.headers → Dict.Sorted b.prepared.request.headers →
    SendAlike a.prepared.request.headers b.prepared.request.headers
  method : a.prepared.operation.method = b.prepared.operation.method →
    a.prepared.request.method = b.prepared.request.method
  unswitched : a.service = b.service → a.prepared.request.method = b.prepared.request.method

/-- Calls with one identity are alike. -/
theorem alike_of_identity_eq (hkeeps : authenticate.KeepsMethod) {step step' : Step}
    {call call' : CachedCall} (hcall : step.cachedCall? authenticate = some call)
    (hcall' : step'.cachedCall? authenticate = some call')
    (hidentity : call.identity = call'.identity) : Alike call call' := by
  obtain ⟨-, hoperation, hurl, hheaders, hbody⟩ := Cache.identity_inj hidentity
  obtain ⟨_, _, _, -, hprepare, -⟩ := cachedCall?_eq_some hcall
  obtain ⟨_, _, _, -, hprepare', -⟩ := cachedCall?_eq_some hcall'
  have hmethod : call.prepared.operation.method = call'.prepared.operation.method →
      call.prepared.request.method = call'.prepared.request.method := by
    intro heq
    rw [Service.prepare_method hkeeps hprepare, Service.prepare_method hkeeps hprepare', heq]
  refine ⟨hurl, hbody, ?_, fun hsorted hsorted' => ?_, hmethod, ?_⟩
  · intro name hopen hone hone' value
    rw [← Cache.find?_identityHeaders_iff hopen hone, hheaders,
      Cache.find?_identityHeaders_iff hopen hone']
  · exact (Cache.identityHeaders_eq_iff hsorted hsorted').mp hheaders
  · -- In one declaration the name of an operation says which it is.
    intro hservice
    have hfind := Service.prepare_operation hprepare
    have hfind' := Service.prepare_operation hprepare'
    rw [hservice, hoperation, hfind'] at hfind
    exact hmethod (by rw [Option.some.inj hfind])

/-- The client of a session keeps its cache. -/
theorem cache_of_mem_trace (hcache : client.cache = some cache) {e : Event}
    (h : e ∈ trace authenticate steps client) : ∃ cache', e.before.cache = some cache' := by
  induction steps generalizing client cache with
  | nil => simp [trace] at h
  | cons step rest ih =>
      rcases List.mem_cons.1 h with rfl | h
      · exact ⟨cache, by rw [event_before, hcache]⟩
      · obtain ⟨cache', hafter, -⟩ :=
          cacheEffect_event authenticate step hcache
        exact ih hafter h

/-- An event that is answered from the cache found its data there under its key. -/
theorem fromCache_inversion {step : Step} (hcache : client.cache = some cache)
    (hcached : (event authenticate client step).FromCache) :
    ∃ call entry, step.cachedCall? authenticate = some call ∧
      Dict.find? call.key cache.entries = some entry ∧
      (event authenticate client step).answer? = some (.ok {
        operation := call.prepared.operation.name, status := 200, cached := true
        data := (pipeline call.prepared.operation.steps entry.data).value }) := by
  cases hcall : step.cachedCall? authenticate with
  | none =>
      rcases event_uncached client hcall with ⟨start, haction⟩ | ⟨-, hnot⟩
      · -- A clearing has no answer.
        obtain ⟨outcome, hanswer, -⟩ := hcached
        simp [event, haction] at hanswer
      · exact absurd hcached hnot
  | some call =>
      have hconsults := consults hcall hcache
      obtain ⟨body, hread⟩ := hconsults.read_of_fromCache hcached
      obtain ⟨hanswer, -⟩ := hconsults.answer_of_read hread
      rcases Cache.get_cases step.times.asked call.key cache with
        ⟨-, heq⟩ | ⟨entry, -, -, heq⟩ | ⟨entry, hfind, -, heq⟩
      · rw [heq] at hread
        cases hread
      · -- An expired entry is dropped, and no body comes of it.
        rw [heq] at hread
        cases Cache.eq_of_saveThen_ok hread
      · rw [heq] at hread
        cases hread
        exact ⟨call, entry, rfl, hfind, hanswer⟩

/-- A call that is answered from the cache is answered with what an earlier call fetched, and
the requests of the two are alike. -/
theorem served_alike (hkeeps : authenticate.KeepsMethod) (hcache : client.cache = some cache)
    (hempty : cache.entries = []) (hapart : DigestsApart authenticate steps) {i : Nat}
    {hit : Event} (hhit : (trace authenticate steps client)[i]? = some hit)
    (hcached : hit.FromCache) :
    ∃ source served fetched,
      ServedBy authenticate ((trace authenticate steps client).take i) hit source served fetched ∧
        Alike served fetched := by
  rw [getElem?_trace] at hhit
  obtain ⟨step, hstep, rfl⟩ := Option.map_eq_some_iff.1 hhit
  obtain ⟨cache', hbefore, hbacked⟩ :=
    backed_after authenticate hcache hempty (steps.take i)
  obtain ⟨served, entry, hserved, hfind, hanswer⟩ := fromCache_inversion hbefore hcached
  -- The entry comes from the latest event that stored under the key.
  obtain ⟨before, source, later, hsplit, hstored, hlatest⟩ :=
    log_eq_some_iff.mp (hbacked served.key entry hfind)
  obtain ⟨fetched, response, hfetched, hexecuted, haccepted, hkey, hentry⟩ :=
    stored?_eq_some hstored
  have hmem : source ∈ trace authenticate (steps.take i) client := by simp [hsplit]
  obtain ⟨hsource, hsourceStep⟩ := event_of_mem_trace authenticate hmem
  obtain ⟨sourceCache, hsourceCache⟩ := cache_of_mem_trace hcache hmem
  have hdata : entry.data = response.body := congrArg Entry.data hentry
  refine ⟨source, served, fetched, ⟨?_, hfetched, hkey, ⟨before, later, ?_, hlatest⟩, ?_, ?_⟩, ?_⟩
  · rw [event_step]
    exact hserved
  · rw [take_trace]
    exact hsplit
  · rw [hsource] at hexecuted ⊢
    rw [event_before]
    exact (consults hfetched hsourceCache).sent_of_executed hexecuted
  · exact ⟨response, haccepted, by rw [hanswer, hdata]⟩
  · -- Equal keys have equal digests, and those have equal texts here.
    have htext := hapart step (List.mem_of_getElem? hstep) source.step
      (List.mem_of_mem_take hsourceStep) served fetched hserved hfetched
      (Cache.digest_eq_of_key_eq hkey)
    exact alike_of_identity_eq hkeeps hserved hfetched (Json.render_injective htext)

/-! ### The two limits -/

/-- A call that is made while the response to a call with its key may be served is answered
with that response. -/
theorem servedBy_second {step step' : Step} {call call' : CachedCall} {response : Response}
    (hcache : client.cache = some cache) (hempty : cache.entries = [])
    (hcall : step.cachedCall? authenticate = some call)
    (hcall' : step'.cachedCall? authenticate = some call') (hkey : call.key = call'.key)
    (haccepted : call.prepared.operation.accepted?
      (client.server.exchange call.prepared.request).1 = some response)
    (hage : Cache.isExpiredAt step.times.stored call.ttl step'.times.asked = false) :
    ServedBy authenticate [event authenticate client step]
      (event authenticate (event authenticate client step).after step')
      (event authenticate client step) call' call := by
  have hmiss : (cache.get step.times.asked call.key).1 = .ok none := by
    simp [Cache.get, hempty, Dict.find?]
  have hfirst := consults hcall hcache
  have hsent := hfirst.sent_of_read hmiss
  have hstored : (event authenticate client step).stored? authenticate
      = some (call.key,
          { data := response.body, timestamp := step.times.stored, ttl := call.ttl }) := by
    simp [Event.stored?, Event.executed, hcall, hsent, haccepted]
  refine ⟨by rw [event_step]; exact hcall', by rw [event_step]; exact hcall, hkey.symm,
    ⟨[], [], rfl, by simp⟩, ?_, response, ?_, ?_⟩
  · rw [event_before]
    exact hsent
  · rw [event_before]
    exact haccepted
  · -- The entry is still there, and the second read finds it.
    have hafter : (event authenticate client step).after.cache
        = some ((cache.get step.times.asked call.key).2.set step.times.stored call.key response.body
            call.ttl).2 := by
      cases hfirst with
      | unread e hread => rw [hread] at hmiss; cases hmiss
      | served body hread => rw [hread] at hmiss; cases hmiss
      | refused hread hanswer hsent hnone => rw [hnone] at hstored; cases hstored
      | fetched data hread hanswer hsent hsome hafter =>
          rw [hsome] at hstored
          cases hstored
          exact hafter
    refine ((consults hcall' hafter).answer_of_read ?_).1
    have hfind := Cache.find?_set step.times.stored call.key call'.key response.body call.ttl
      (cache.get step.times.asked call.key).2
    rw [if_pos hkey] at hfind
    exact Cache.get_of_unexpired hfind hage

/-- Calls with one identity have one key. -/
theorem key_eq_of_identity_eq {call call' : CachedCall} (h : call.identity = call'.identity) :
    call.key = call'.key := by
  obtain ⟨hservice, hoperation, -⟩ := Cache.identity_inj h
  show call.service.name ++ "." ++ call.prepared.operation.name ++ "."
    ++ String.ofList (shortDigest call.identity) = _
  rw [h, hservice, hoperation]
  rfl

/-- Two calls with one identity have no digests that could be mixed up. -/
theorem digestsApart_pair {step step' : Step} {call call' : CachedCall}
    (hcall : step.cachedCall? authenticate = some call)
    (hcall' : step'.cachedCall? authenticate = some call')
    (hidentity : call.identity = call'.identity) : DigestsApart authenticate [step, step'] := by
  -- Both steps have the one identity.
  have hone : ∀ other ∈ [step, step'], ∀ found, other.cachedCall? authenticate = some found →
      found.identity = call.identity := by
    intro other hmem found hfound
    rcases List.mem_cons.1 hmem with rfl | hmem
    · rw [hcall] at hfound
      rw [Option.some.inj hfound]
    · obtain rfl := List.mem_singleton.1 hmem
      rw [hcall'] at hfound
      rw [← Option.some.inj hfound, hidentity]
  intro first hfirst second hsecond found found' hfound hfound' _
  rw [hone first hfirst found hfound, hone second hsecond found' hfound']

/-- The call of the query of `usersService`. -/
def usersCall : CachedCall where
  service := usersService
  prepared := {
    operation := { name := "users", call := .graphql ⟨.query, "users"⟩, cacheSeconds := some 1 }
    request := {
      method := .post, url := "http://h", headers := [("Content-Type", "application/json")]
      body := some (.ofMembers [("query", .string "users"), ("variables", .object [])]) } }
  ttl := 1

/-- What the call of the users asks the cache for. -/
theorem cachedCall?_usersStep (times : CallTimes) :
    (usersStep times).cachedCall? .anonymous = some usersCall :=
  rfl

/-- The second call of the query is served what the first one fetched. -/
theorem served_usersSteps :
    ∃ source served fetched,
      ServedBy .anonymous ((trace .anonymous usersSteps usersClient).take 1)
        (event .anonymous (after .anonymous [usersStep ⟨0, 500⟩] usersClient)
          (usersStep ⟨1500, 1500⟩)) source
        served fetched ∧ Alike served fetched := by
  have hsecond := servedBy_second (show usersClient.cache = some {} from rfl) rfl
    (cachedCall?_usersStep ⟨0, 500⟩) (cachedCall?_usersStep ⟨1500, 1500⟩) rfl rfl (by decide)
  obtain ⟨_, _, hanswer⟩ := hsecond.answer
  refine served_alike (fun _ _ => rfl) (show usersClient.cache = some {} from rfl) rfl ?_
    (show (trace .anonymous usersSteps usersClient)[1]? = some _ from rfl) ⟨_, hanswer, rfl⟩
  exact digestsApart_pair (cachedCall?_usersStep ⟨0, 500⟩) (cachedCall?_usersStep ⟨1500, 1500⟩) rfl

/-- The two requests agree in all that is sent: method, address, body, and every value of every
spelling of every header that is no secret. -/
structure SameRequest (a b : Request) : Prop where
  method : a.method = b.method
  url : a.url = b.url
  body : a.body = b.body
  headers : ∀ name ∉ secretHeaders, ∀ value,
    Sends a.headers name value ↔ Sends b.headers name value

/-- Every call of the session that is answered from the cache has the very request that the
response was fetched for. -/
def ServesSame (authenticate : Authenticator) (steps : List Step) (client : Client) : Prop :=
  ∀ (i : Nat) hit source served fetched,
    (trace authenticate steps client)[i]? = some hit →
    ServedBy authenticate ((trace authenticate steps client).take i) hit source served fetched →
    SameRequest served.prepared.request fetched.prepared.request

/-- A service with a query that takes one header in two spellings. -/
def spelledService : Service :=
  { name := "svc", baseUrl := "http://h"
    graphqlOperations := [{
      name := "users", call := ⟨.query, "users"⟩, cacheSeconds := some 60
      parameters := [{ name := "X-A", slot := .header }, { name := "x-a", slot := .header }] }] }

/-- The query is called with the given headers. -/
def spelledStep (headers : Dict String) : Step :=
  ⟨⟨0, 0⟩, .call spelledService {} "users" (headers.map fun (name, value) => (name, .string value))⟩

/-- The call of the query with the given headers. -/
def spelledCall (headers : Dict String) : CachedCall where
  service := spelledService
  prepared := {
    operation := {
      name := "users", call := .graphql ⟨.query, "users"⟩, cacheSeconds := some 60
      parameters := [{ name := "X-A", slot := .header }, { name := "x-a", slot := .header }] }
    request := {
      method := .post, url := "http://h"
      headers := ("Content-Type", "application/json") :: headers
      body := some (.ofMembers [("query", .string "users"), ("variables", .object [])]) } }
  ttl := 60

/-- A service whose endpoint is called with the given method. -/
def methodService (method : Method) : Service :=
  { name := "svc", baseUrl := "http://h"
    endpoints := [{ name := "users", call := ⟨method, "/users"⟩, cacheSeconds := some 60 }] }

/-- The endpoint is called. -/
def methodStep (method : Method) : Step :=
  ⟨⟨0, 0⟩, .call (methodService method) {} "users" []⟩

/-- The call of the endpoint. -/
def methodCall (method : Method) : CachedCall where
  service := methodService method
  prepared := {
    operation := { name := "users", call := .rest ⟨method, "/users"⟩, cacheSeconds := some 60 }
    request := { method, url := "http://h/users" } }
  ttl := 60

/-- The service with two spellings of a header keeps the rules. -/
theorem check_spelledService : spelledService.check = .ok () := by
  refine Service.check_of_operations_eq rfl rfl (by decide) (by simp [spelledService]) ?_
  exact Operation.check_eq_ok_iff.mpr ⟨by decide, by simp [Operation.template?, Operation.mapCall],
    fun _ => rfl⟩

/-- An endpoint that reads may have a time in the cache, so the rules are kept. -/
theorem check_methodService {method : Method} (hread : method = .get ∨ method = .head) :
    (methodService method).check = .ok () := by
  have hblank : Text.isBlankString "svc" = false ∧ Text.isBlankString "users" = false := by
    decide
  refine Service.check_of_operations_eq rfl rfl hblank.1 (by simp [methodService]) ?_
  refine Operation.check_eq_ok_iff.mpr
    ⟨hblank.2, by simp [Operation.template?, Operation.mapCall], fun _ => ?_⟩
  rcases hread with rfl | rfl <;> rfl

/-- The call with both spellings sends both. -/
theorem cachedCall?_spelledStep_both :
    (spelledStep [("X-A", "1"), ("x-a", "2")]).cachedCall? .anonymous
      = some (spelledCall [("X-A", "1"), ("x-a", "2")]) :=
  rfl

/-- The call with one spelling sends that one. -/
theorem cachedCall?_spelledStep_one :
    (spelledStep [("x-a", "2")]).cachedCall? .anonymous = some (spelledCall [("x-a", "2")]) :=
  rfl

/-- The path has no placeholder, so the request of the endpoint needs no arguments. -/
theorem prepare_methodService (method : Method) :
    (methodService method).prepare .anonymous "users" [] false
      = .ok (methodCall method).prepared := by
  have hpair : ¬ Template.HasPair "/users".toList := fun h => absurd h.mem_open (by decide)
  have hexpected : Expected.ofOperation (methodCall method).prepared.operation = {} := by
    simp only [Expected.ofOperation, methodCall, Operation.template?,
      Template.placeholders_of_not_hasPair hpair, Option.map_some]
    rfl
  have hparts : Arguments.parts (methodCall method).prepared.operation {} []
      = .ok { path := "/users" } := by
    simp only [Arguments.parts, methodCall, Operation.template?,
      Template.fill_of_not_hasPair hpair]
    rfl
  have hurl : (methodService method).address { path := "/users" } = "http://h/users" := by
    rw [← String.toList_inj]
    simp [Service.address, methodService, RequestParts.queryString?]
  rw [Service.prepare_of_parts
    (show (methodService method).resolve "users" []
      = .ok ⟨(methodCall method).prepared.operation, none, []⟩ from rfl)
    (by rw [hexpected]; rfl) (by rw [hexpected]; exact hparts)]
  simp [Service.request, methodCall, Request.withContentType, Authenticator.anonymous, hurl]

/-- What the call of the endpoint asks the cache for, for each method that reads. -/
theorem cachedCall?_methodStep {method : Method} (hread : method = .get ∨ method = .head) :
    (methodStep method).cachedCall? .anonymous = some (methodCall method) := by
  simp only [Step.cachedCall?, methodStep, prepare_methodService]
  rcases hread with rfl | rfl <;> rfl

/-- The names of the headers in small letters. -/
theorem foldCase_spelled : Text.foldCase "X-A" = "x-a" ∧ Text.foldCase "x-a" = "x-a" ∧
    Text.foldCase "Content-Type" = "content-type" := by
  simp only [Text.foldCase_eq_iff]
  decide

/-- The folded headers do not tell whether the other spelling is there. -/
theorem identity_spelledCall :
    (spelledCall [("X-A", "1"), ("x-a", "2")]).identity
      = (spelledCall [("x-a", "2")]).identity := by
  have horder : ¬"x-a" < "content-type" := by decide
  -- Both spellings are folded to one name, and the value of the later one stays.
  have hheaders : Cache.identityHeaders
        (spelledCall [("X-A", "1"), ("x-a", "2")]).prepared.request.headers
      = Cache.identityHeaders (spelledCall [("x-a", "2")]).prepared.request.headers := by
    simp [Cache.identityHeaders, spelledCall, foldCase_spelled, secretHeaders, Dict.ofList,
      Dict.insert, horder, -String.lt_iff_ltb]
  rw [CachedCall.identity, CachedCall.identity, Cache.identity_eq, Cache.identity_eq, hheaders]
  rfl

/-- A session of two calls with one key serves the second what the first fetched, so their
requests would have to be the same. -/
theorem not_servesSame_pair {step step' : Step} {call call' : CachedCall}
    (hserved : ServedBy authenticate [event authenticate client step]
      (event authenticate (event authenticate client step).after step')
      (event authenticate client step) call' call)
    (hother : ¬ SameRequest call'.prepared.request call.prepared.request) :
    ¬ ServesSame authenticate [step, step'] client :=
  fun h => hother (h 1 _ _ _ _ rfl hserved)

/-- Two accepted sessions in which no digests are mixed up, and yet the request that is served
is another than the one that was sent. In the first session it lacks a header, of which it has
the other spelling. In the second the method of the operation was changed in between. -/
theorem not_servesSame :
    (spelledService.check = .ok () ∧
      DigestsApart .anonymous
        [spelledStep [("X-A", "1"), ("x-a", "2")], spelledStep [("x-a", "2")]] ∧
      ¬ ServesSame .anonymous
        [spelledStep [("X-A", "1"), ("x-a", "2")], spelledStep [("x-a", "2")]] usersClient) ∧
    ((methodService .get).check = .ok () ∧ (methodService .head).check = .ok () ∧
      DigestsApart .anonymous [methodStep .get, methodStep .head] ∧
      ¬ ServesSame .anonymous [methodStep .get, methodStep .head] usersClient) := by
  have hcache : usersClient.cache = some {} := rfl
  constructor
  · have hboth := cachedCall?_spelledStep_both
    have hone := cachedCall?_spelledStep_one
    have hkey := key_eq_of_identity_eq identity_spelledCall
    refine ⟨check_spelledService, digestsApart_pair hboth hone identity_spelledCall,
      not_servesSame_pair (servedBy_second hcache rfl hboth hone hkey rfl (by decide)) ?_⟩
    -- The first request sends the header in capitals, and the second does not.
    intro hsame
    have hsends : Sends (spelledCall [("X-A", "1"), ("x-a", "2")]).prepared.request.headers
        "x-a" "1" := ⟨"X-A", by simp [spelledCall], foldCase_spelled.1⟩
    obtain ⟨spelling, hmem, -⟩ := (hsame.headers "x-a" (by decide) "1").mpr hsends
    simp [spelledCall] at hmem
  · have hget := cachedCall?_methodStep (Or.inl rfl : Method.get = .get ∨ Method.get = .head)
    have hhead := cachedCall?_methodStep (Or.inr rfl : Method.head = .get ∨ Method.head = .head)
    refine ⟨check_methodService (Or.inl rfl), check_methodService (Or.inr rfl),
      digestsApart_pair hget hhead rfl,
      not_servesSame_pair (servedBy_second hcache rfl hget hhead rfl rfl (by decide)) ?_⟩
    intro hsame
    cases hsame.method

end Session
end DeclaredApi
