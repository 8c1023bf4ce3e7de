import DeclaredApi.Proofs.Cache.Effect
import DeclaredApi.Proofs.Client.Call

/-!
# `DeclaredApi.Proofs.Client.Frame`: what one call touches, and what it leaves alone

A call ends in one of many ways: the name or the arguments are refused, the cache cannot be
read, it answers, the server does not answer, it answers with another status or with errors,
what it answers cannot be stored, or all goes well. `call_frame` says for every one of them
what has become of the requests, of the entries and of the two counts.

* At most one request is sent, the prepared one, and none where nothing is prepared or the
  cache answers.
* A call that may not use the cache (`Client.UsesCache`) leaves it exactly as it was.
* A call that may use it does two things to the entries at most, both under its own key: it
  drops the entry there if that is expired (`Cache.evicted`), and it stores the body of an
  answer that the operation accepts (`Operation.Accepts`). One of the two counts goes up by
  one: the hits where an entry is found that is not expired (`Cache.Serves`), and the misses
  otherwise.
-/

set_option autoImplicit false

namespace DeclaredApi

namespace Cache

variable {cache : Cache} {now : Int64} {key : String}

/-! ### What a read does -/

/-- The cache has an entry under `key` that is not expired. -/
def Serves (cache : Cache) (now : Int64) (key : String) : Prop :=
  ∃ entry, Dict.find? key cache.entries = some entry ∧ entry.isExpired now = false

/-- The entries without the one under `key`, if that is expired. -/
def evicted (now : Int64) (key : String) (entries : Entries) : Entries :=
  match Dict.find? key entries with
  | some entry => if entry.isExpired now then Dict.erase key entries else entries
  | none => entries

/-- A read drops what is expired under its key, also where that cannot be written. -/
theorem entries_get (cache : Cache) (now : Int64) (key : String) :
    (cache.get now key).2.entries = evicted now key cache.entries := by
  rcases get_cases now key cache with
    ⟨hfind, heq⟩ | ⟨entry, hfind, hexp, heq⟩ | ⟨entry, hfind, hfresh, heq⟩
  · simp only [heq, evicted, hfind]
  · simp only [heq, entries_saveThen, evicted, hfind, hexp, if_true]
  · simp only [heq, evicted, hfind, hfresh, Bool.false_eq_true, if_false]

/-- A read that finds an entry which is not expired is a hit, and every other one a miss, also
where it fails. -/
theorem counts_get (cache : Cache) (now : Int64) (key : String) :
    (cache.Serves now key → (cache.get now key).2.hits = cache.hits + 1 ∧
      (cache.get now key).2.misses = cache.misses) ∧
    (¬ cache.Serves now key → (cache.get now key).2.hits = cache.hits ∧
      (cache.get now key).2.misses = cache.misses + 1) := by
  rcases get_cases now key cache with
    ⟨hfind, heq⟩ | ⟨entry, hfind, hexp, heq⟩ | ⟨entry, hfind, hfresh, heq⟩
  · have hserves : ¬ cache.Serves now key := by simp [Serves, hfind]
    exact ⟨fun h => absurd h hserves, fun _ => by simp [heq]⟩
  · have hserves : ¬ cache.Serves now key := by simp [Serves, hfind, hexp]
    exact ⟨fun h => absurd h hserves, fun _ => by simp [heq]⟩
  · have hserves : cache.Serves now key := ⟨entry, hfind, hfresh⟩
    exact ⟨fun _ => by simp [heq], fun h => absurd hserves h⟩

/-- What a call leaves of a cache that it uses under `key`:

- `entries`: the entry under the key is dropped if it is expired, and after that at most a body
  is stored there, which is one of the `storable`;
- `hit`, `miss`: one of the counts goes up by one, the hits exactly where the cache serves. -/
structure Touched (times : CallTimes) (key : String) (ttl : UInt64) (storable : Json → Prop)
    (before after : Cache) : Prop where
  entries : after.entries = evicted times.asked key before.entries ∨
    ∃ body, storable body ∧ after.entries
      = Dict.insert key { data := body, timestamp := times.stored, ttl }
        (evicted times.asked key before.entries)
  hit : before.Serves times.asked key →
    after.hits = before.hits + 1 ∧ after.misses = before.misses
  miss : ¬ before.Serves times.asked key →
    after.hits = before.hits ∧ after.misses = before.misses + 1

/-- A lookup touches no more than a call may: it drops an expired entry at most. -/
theorem touched_get (cache : Cache) (times : CallTimes) (key : String) (ttl : UInt64)
    (storable : Json → Prop) :
    cache.Touched times key ttl storable (cache.get times.asked key).2 where
  entries := Or.inl (entries_get cache times.asked key)
  hit := (counts_get cache times.asked key).1
  miss := (counts_get cache times.asked key).2

/-- Storing after a read counts nothing more. -/
theorem touched_set (cache : Cache) (times : CallTimes) (key : String) (ttl : UInt64)
    {storable : Json → Prop} {body : Json} (h : storable body) :
    cache.Touched times key ttl storable
      ((cache.get times.asked key).2.set times.stored key body ttl).2 where
  entries := Or.inr ⟨body, h, by rw [set, entries_save, entries_get]⟩
  hit := by
    rw [set, hits_save, misses_save]
    exact (counts_get cache times.asked key).1
  miss := by
    rw [set, hits_save, misses_save]
    exact (counts_get cache times.asked key).2

end Cache

/-! ### When a call may use the cache -/

/-- A call of the operation may use the cache, for `ttl` seconds:

- `has`: the client has the cache;
- `consults`: the caller did not ask to pass it by;
- `reads`: the operation only reads;
- `seconds`, `positive`: it declares a time to live, and not zero. -/
structure Client.UsesCache (client : Client) (options : CallOptions) (op : Operation Call)
    (cache : Cache) (ttl : UInt64) : Prop where
  has : client.cache = some cache
  consults : options.noCache = false
  reads : op.isRead = true
  seconds : op.cacheSeconds = some ttl
  positive : 0 < ttl

/-- The cache of a call is the one that the description of its use gives. -/
theorem Client.cacheFor?_eq_some_iff {client : Client} {options : CallOptions}
    {op : Operation Call} {cache : Cache} {ttl : UInt64} :
    client.cacheFor? op options = some (cache, ttl) ↔ client.UsesCache options op cache ttl := by
  constructor
  · intro h
    unfold Client.cacheFor? at h
    split at h
    · cases h
    · next hconsults =>
        obtain ⟨seconds, hseconds, h⟩ := Option.bind_eq_some_iff.1 h
        obtain ⟨found, hfound, h⟩ := Option.bind_eq_some_iff.1 h
        cases h
        obtain ⟨hseconds, hkeep⟩ := Option.filter_eq_some_iff.1 hseconds
        simp only [Bool.and_eq_true, decide_eq_true_eq] at hkeep
        exact ⟨hfound, by simpa using hconsults, hkeep.2, hseconds, hkeep.1⟩
  · rintro ⟨hhas, hconsults, hreads, hseconds, hpositive⟩
    simp [Client.cacheFor?, Operation.keepSeconds?, Option.filter, hhas, hconsults, hreads,
      hseconds, hpositive]

/-! ### Which answers are stored -/

/-- The operation accepts a response: its status says success, and if the operation is a
GraphQL one its body lists no errors. -/
structure Operation.Accepts (op : Operation Call) (response : Response) : Prop where
  success : 200 ≤ response.status ∧ response.status < 300
  clean : op.isGraphql = true → ∀ errors, response.body.member? "errors" = some (.array errors) →
    errors = []

/-- A response is accepted only if it is the answer and its status is accepted. -/
theorem Operation.accepts_of_accepted? {op : Operation Call} {answer : Answer}
    {response : Response} (h : op.accepted? answer = some response) :
    answer = .ok response ∧ op.Accepts response := by
  cases answer with
  | error e => cases h
  | ok answered =>
      simp only [Operation.accepted?] at h
      split at h
      · next haccepted =>
          cases h
          obtain ⟨hsuccess, hclean⟩ := haccepted
          refine ⟨rfl, by simpa [Response.isSuccess] using hsuccess, ?_⟩
          intro hgraphql errors hbody
          cases errors with
          | nil => rfl
          | cons e rest => simp [Operation.graphqlErrors?, hgraphql, hbody] at hclean
      · cases h

/-! ### What a call does -/

/-- The prepared request was sent, once, and `body` is that of an answer which the operation
accepts. -/
def Client.Fetched (client after : Client) (prepared : Prepared) (body : Json) : Prop :=
  after.server.requests = prepared.request :: client.server.requests ∧
    ∃ response, (client.server.exchange prepared.request).1 = .ok response ∧
      prepared.operation.Accepts response ∧ response.body = body

/-- What the call of a prepared request leaves, with the answer and the client after it:

- `sent`: nothing was sent, or the prepared request was, once;
- `unsent`: nothing was sent if the outcome comes from the cache;
- `untouched`: a call that may not use the cache leaves it as it was, with its entries, its
  file and its counts;
- `touched`: a call that may use the cache drops what is expired under its own key, and stores
  there at most what it fetched; it counts a hit or a miss. -/
structure CallFrame (client : Client) (service : Service) (times : CallTimes)
    (options : CallOptions) (prepared : Prepared)
    (result : Except CallError Outcome × Client) : Prop where
  sent : result.2.server = client.server ∨
    result.2.server.requests = prepared.request :: client.server.requests
  unsent : ∀ outcome, result.1 = .ok outcome → outcome.cached = true →
    result.2.server = client.server
  untouched : (∀ cache ttl, ¬ client.UsesCache options prepared.operation cache ttl) →
    result.2.cache = client.cache
  touched : ∀ cache ttl, client.UsesCache options prepared.operation cache ttl →
    ∃ after, result.2.cache = some after ∧
      cache.Touched times (prepared.key service) ttl (client.Fetched result.2 prepared) after

section Courses

variable {client : Client} {service : Service} {times : CallTimes} {options : CallOptions}
  {prepared : Prepared} {cache : Cache} {ttl : UInt64}

/-- The client has one cache and the operation one time to live, so what a call leaves is said
of them alone. -/
theorem Client.UsesCache.callFrame {result : Except CallError Outcome × Client} {after : Cache}
    (huses : client.UsesCache options prepared.operation cache ttl)
    (hsent : result.2.server = client.server ∨
      result.2.server.requests = prepared.request :: client.server.requests)
    (hunsent : ∀ outcome, result.1 = .ok outcome → outcome.cached = true →
      result.2.server = client.server)
    (hafter : result.2.cache = some after)
    (htouched : cache.Touched times (prepared.key service) ttl (client.Fetched result.2 prepared)
      after) : CallFrame client service times options prepared result where
  sent := hsent
  unsent := hunsent
  untouched h := absurd huses (h cache ttl)
  touched other seconds hother := by
    cases hother.has.symm.trans huses.has
    cases hother.seconds.symm.trans huses.seconds
    exact ⟨after, hafter, htouched⟩

/-- A call that may not use the cache sends its request and touches nothing else. -/
theorem callFrame_callUncached (calls : Nat)
    (hfor : client.cacheFor? prepared.operation options = none) :
    CallFrame client service times options prepared
      ({ client with calls }.callUncached prepared) := by
  have hserver := Client.callUncached_server { client with calls } prepared
  obtain ⟨hcache, hcached⟩ := Client.callUncached_cache { client with calls } prepared
  refine ⟨Or.inr ?_, fun outcome hok htrue => ?_, fun _ => hcache, fun cache ttl huses => ?_⟩
  · rw [hserver]
    exact exchange_requests client.server prepared.request
  · rw [hcached outcome hok] at htrue
    cases htrue
  · rw [Client.cacheFor?_eq_some_iff.mpr huses] at hfor
    cases hfor

/-- A call that may use the cache reads it, and sends its request where that finds nothing. -/
theorem callFrame_callCached (calls : Nat)
    (huses : client.UsesCache options prepared.operation cache ttl) :
    CallFrame client service times options prepared
      ({ client with calls }.callCached cache prepared (prepared.key service) ttl times) := by
  rcases ({ client with calls } : Client).callCached_cases cache prepared (prepared.key service)
      ttl times with
    ⟨e, -, heq⟩ | ⟨body, -, heq⟩ | ⟨-, -, e, heq⟩ |
      ⟨-, response, haccepted, hafter, hserver, hcached⟩
  · -- The read fails.
    rw [heq]
    exact huses.callFrame (Or.inl rfl) (fun _ _ _ => rfl) rfl (cache.touched_get times _ ttl _)
  · -- The cache answers.
    rw [heq]
    exact huses.callFrame (Or.inl rfl) (fun _ _ _ => rfl) rfl (cache.touched_get times _ ttl _)
  · -- The answer is not accepted.
    rw [heq]
    refine huses.callFrame (Or.inr ?_) (fun outcome hok => ?_) rfl (cache.touched_get times _ ttl _)
    · exact exchange_requests client.server prepared.request
    · cases hok
  · -- What is accepted is stored, in memory at least.
    have hsent := exchange_requests client.server prepared.request
    obtain ⟨hresponse, haccepts⟩ := Operation.accepts_of_accepted? haccepted
    refine huses.callFrame (Or.inr ?_) (fun outcome hok htrue => ?_) hafter
      (cache.touched_set times _ ttl ⟨?_, response, hresponse, haccepts, rfl⟩)
    · rw [hserver]
      exact hsent
    · rw [hcached outcome hok] at htrue
      cases htrue
    · rw [hserver]
      exact hsent

end Courses

/-- What every call leaves: one that cannot be prepared only counts itself, and any other one
touches no more than `CallFrame` says. -/
theorem call_frame (client : Client) (authenticate : Authenticator) (service : Service)
    (times : CallTimes) (options : CallOptions) (name : String) (arguments : Arguments) :
    match service.prepare authenticate name arguments options.strict with
    | .error e => client.call authenticate service times options name arguments
        = (.error e, { client with calls := client.calls + 1 })
    | .ok prepared => CallFrame client service times options prepared
        (client.call authenticate service times options name arguments) := by
  unfold Client.call
  cases service.prepare authenticate name arguments options.strict with
  | error e => rfl
  | ok prepared =>
      -- What cache a call uses does not depend on the count of calls.
      have hsame : ({ client with calls := client.calls + 1 } : Client).cacheFor?
          prepared.operation options = client.cacheFor? prepared.operation options := rfl
      simp only [hsame]
      cases hfor : client.cacheFor? prepared.operation options with
      | none => exact callFrame_callUncached _ hfor
      | some used => exact callFrame_callCached _ (Client.cacheFor?_eq_some_iff.mp hfor)

end DeclaredApi
