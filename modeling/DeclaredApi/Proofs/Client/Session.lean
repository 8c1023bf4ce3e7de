import DeclaredApi.Proofs.Cache.Identity
import DeclaredApi.Proofs.Cache.Log
import DeclaredApi.Proofs.Client.Call

/-!
# `DeclaredApi.Proofs.Client.Session`: the calls of a session, against their history

A session is a list of timed steps on one client: calls, each for a service, and clearings of
the keys that start with a text. `trace` runs it and notes for each step the client before and
after it and the answer (`Event`). What an event stores is read off the event alone
(`Event.stored?`): the call may use the cache, a request was sent, and the answer was accepted.

`consults` lists the four ways of a call that may use the cache. `cacheEffect_event` says what
any event does to the cache: it clears, leaves the cache alone, reads, or reads and stores. So
the log of a trace is a log as `DeclaredApi.Proofs.Cache.Log` has it, and the cache follows it
(`follows_after`), or is at least backed by it where the file or the clock cannot be relied on
(`backed_after`).

`answer_iff_freshStore` is the main statement. It is about sessions on one service, from a
cache without entries, with a clock that never runs back, also not within a call. A call that may
use the cache is answered from it exactly when the latest store under its key was not cleared
since and is not too old (`FreshStore`). The age is counted from the time at which the answer was
stored, which may be later than the one at which it was asked for. Then no request is sent, and
the data is the stored body in the shape that the operation asks for. Otherwise exactly the
prepared request is sent.
-/

set_option autoImplicit false

namespace DeclaredApi.Session

open Cache (Entry Change Log Follows Backed Clock)

/-! ### Sessions and their traces -/

/-- What a user of a client does. -/
inductive Action where
  | call (service : Service) (options : CallOptions) (name : String) (arguments : Arguments)
  /-- Drops the entries whose keys start with `start`. -/
  | clearStart (start : String)

/-- An action with the times at which it reads the clock. A clearing reads none. -/
structure Step where
  times : CallTimes
  action : Action

/-- All that the clock has for a session, in order. -/
def readings (steps : List Step) : List Int64 :=
  steps.flatMap fun step => [step.times.asked, step.times.stored]

/-- A step of a session with the client before and after it. -/
structure Event where
  step : Step
  before : Client
  /-- The answer, if the step is a call. -/
  answer? : Option (Except CallError Outcome)
  after : Client

variable (authenticate : Authenticator)

/-- Does a step. -/
def event (client : Client) (step : Step) : Event :=
  match step.action with
  | .call service options name arguments =>
    let (answer, after) := client.call authenticate service step.times options name arguments
    { step, before := client, answer? := some answer, after }
  | .clearStart start =>
    { step, before := client, answer? := none
      after := { client with cache := client.cache.map fun cache => (cache.clearStart start).2 } }

/-- The client after a session. -/
def after (steps : List Step) (client : Client) : Client :=
  steps.foldl (fun client step => (event authenticate client step).after) client

/-- The events of a session, in order. -/
def trace : List Step → Client → List Event
  | [], _ => []
  | step :: rest, client =>
    event authenticate client step :: trace rest (event authenticate client step).after

/-- One more step is one more event, at the client that the steps before it leave. -/
theorem trace_concat (steps : List Step) (last : Step) (client : Client) :
    trace authenticate (steps ++ [last]) client
      = trace authenticate steps client
        ++ [event authenticate (after authenticate steps client) last] := by
  induction steps generalizing client with
  | nil => rfl
  | cons step rest ih => simp only [List.cons_append, trace, ih, after, List.foldl_cons]

/-- An event of a trace is its step on the client after the steps before it. -/
theorem getElem?_trace (steps : List Step) (client : Client) (i : Nat) :
    (trace authenticate steps client)[i]?
      = steps[i]?.map (event authenticate (after authenticate (steps.take i) client)) := by
  induction steps generalizing client i with
  | nil => simp [trace]
  | cons step rest ih =>
      cases i with
      | zero => simp [trace, after]
      | succ i => simpa [trace, after] using ih (event authenticate client step).after i

/-- The first events of a session are the events of its first steps. -/
theorem take_trace (steps : List Step) (client : Client) (i : Nat) :
    (trace authenticate steps client).take i = trace authenticate (steps.take i) client := by
  induction steps generalizing client i with
  | nil => simp [trace]
  | cons step rest ih =>
      cases i with
      | zero => rfl
      | succ i => simp only [List.take_succ_cons, trace, ih]

/-- An event tells its step. -/
@[simp] theorem event_step (client : Client) (step : Step) :
    (event authenticate client step).step = step := by
  unfold event
  split <;> rfl

/-- An event tells the client before it. -/
@[simp] theorem event_before (client : Client) (step : Step) :
    (event authenticate client step).before = client := by
  unfold event
  split <;> rfl

/-- Every event of a session is what one of its steps does to some client. -/
theorem event_of_mem_trace {steps : List Step} {client : Client} {e : Event}
    (h : e ∈ trace authenticate steps client) :
    e = event authenticate e.before e.step ∧ e.step ∈ steps := by
  induction steps generalizing client with
  | nil => simp [trace] at h
  | cons step rest ih =>
      rcases List.mem_cons.1 h with rfl | h
      · simp
      · obtain ⟨heq, hmem⟩ := ih h
        exact ⟨heq, List.mem_cons_of_mem _ hmem⟩

/-! ### Calls that may use the cache -/

/-- A call that is prepared and may use the cache: the operation reads and is kept for `ttl`
seconds, and the caller did not ask to pass the cache by. -/
structure CachedCall where
  service : Service
  prepared : Prepared
  ttl : UInt64

/-- The key of the call. -/
def CachedCall.key (call : CachedCall) : String :=
  call.prepared.key call.service

/-- The call of a step, if it is prepared and may use the cache. -/
def Step.cachedCall? (step : Step) : Option CachedCall :=
  match step.action with
  | .call service options name arguments =>
    match service.prepare authenticate name arguments options.strict with
    | .ok prepared =>
      if options.noCache then none
      else prepared.operation.keepSeconds?.map fun ttl => ⟨service, prepared, ttl⟩
    | .error _ => none
  | .clearStart _ => none

/-- Whether a request was sent. -/
def Event.executed (e : Event) : Bool :=
  e.before.server.requests.length < e.after.server.requests.length

/-- Whether the answer comes from the cache. -/
def Event.FromCache (e : Event) : Prop :=
  ∃ outcome, e.answer? = some (.ok outcome) ∧ outcome.cached = true

/-- The entry that the event stores, with its key: a request was sent for a call that may use
the cache, and the answer was accepted. The entry has the body of that answer, the time at
which it is stored and the time to live of its operation. -/
def Event.stored? (e : Event) : Option (String × Entry) :=
  match e.step.cachedCall? authenticate with
  | some call =>
    if e.executed then
      (call.prepared.operation.accepted? (e.before.server.exchange call.prepared.request).1).map
        fun response =>
          (call.key, { data := response.body, timestamp := e.step.times.stored, ttl := call.ttl })
    else none
  | none => none

/-- Whether the event drops the entry under `key`. -/
def Event.Clears (e : Event) (key : String) : Prop :=
  ∃ start, e.step.action = .clearStart start ∧ key.startsWith start = true

/-- What the event changes in the log. -/
def Event.change? (e : Event) : Option Change :=
  match e.step.action with
  | .clearStart start => some (.drop (·.startsWith start))
  | .call _ _ _ _ => (e.stored? authenticate).map fun (key, entry) => .store key entry

variable {authenticate} {client : Client} {cache : Cache} {step : Step} {call : CachedCall}

/-- The step of a call that may use the cache, taken apart. -/
theorem cachedCall?_eq_some (h : step.cachedCall? authenticate = some call) :
    ∃ options name arguments, step.action = .call call.service options name arguments ∧
      call.service.prepare authenticate name arguments options.strict = .ok call.prepared ∧
      options.noCache = false ∧ call.prepared.operation.keepSeconds? = some call.ttl := by
  unfold Step.cachedCall? at h
  split at h
  · next service options name arguments haction =>
      split at h
      · next prepared hprepare =>
          split at h
          · cases h
          · next hcache =>
              obtain ⟨ttl, httl, rfl⟩ := Option.map_eq_some_iff.1 h
              exact ⟨options, name, arguments, haction, hprepare, by simpa using hcache, httl⟩
      · cases h
  · cases h

/-- A call that may use the cache is `callCached` on the client's cache. -/
theorem event_cachedCall (hcall : step.cachedCall? authenticate = some call)
    (hcache : client.cache = some cache) :
    event authenticate client step =
      { step, before := client
        answer? := some (({ client with calls := client.calls + 1 } : Client).callCached cache
          call.prepared call.key call.ttl step.times).1
        after := (({ client with calls := client.calls + 1 } : Client).callCached cache
          call.prepared call.key call.ttl step.times).2 } := by
  obtain ⟨options, name, arguments, haction, hprepare, hnoCache, httl⟩ := cachedCall?_eq_some hcall
  have hfor : ({ client with calls := client.calls + 1 } : Client).cacheFor?
      call.prepared.operation options = some (cache, call.ttl) := by
    simp [Client.cacheFor?, hnoCache, httl, hcache]
  simp only [event, haction, Client.call, hprepare, hfor]
  rfl

/-- Every other step either clears or is a call that leaves the cache alone. -/
theorem event_uncached (client : Client) (hcall : step.cachedCall? authenticate = none) :
    (∃ start, step.action = .clearStart start) ∨
      ((event authenticate client step).after.cache = client.cache ∧
        ¬ (event authenticate client step).FromCache) := by
  obtain ⟨times, action⟩ := step
  cases action with
  | clearStart start => exact Or.inl ⟨start, rfl⟩
  | call service options name arguments =>
      refine Or.inr ?_
      simp only [Step.cachedCall?] at hcall
      simp only [event, Client.call, Event.FromCache]
      cases hprepare : service.prepare authenticate name arguments options.strict with
      | error e => exact ⟨rfl, by simp⟩
      | ok prepared =>
          simp only [hprepare] at hcall
          -- The caller asked to pass the cache by, or the operation is not kept.
          have hfor : ({ client with calls := client.calls + 1 } : Client).cacheFor?
              prepared.operation options = none := by
            cases hnoCache : options.noCache
            · have httl : prepared.operation.keepSeconds? = none := by
                simpa [hnoCache] using hcall
              simp [Client.cacheFor?, httl]
            · simp [Client.cacheFor?, hnoCache]
          simp only [hfor]
          obtain ⟨hcache, hcached⟩ :=
            Client.callUncached_cache { client with calls := client.calls + 1 } prepared
          refine ⟨hcache, ?_⟩
          rintro ⟨outcome, hanswer, htrue⟩
          rw [hcached outcome (Option.some.inj hanswer)] at htrue
          cases htrue

/-- How the step of `call` goes on a client with `cache`.

- `unread`: the cache cannot be read, and nothing is sent;
- `served`: the cache has a body for the call, and nothing is sent;
- `refused`: the request is sent, and its answer is not accepted;
- `fetched`: the request is sent, and what is accepted is stored. -/
inductive Consults (authenticate : Authenticator) (client : Client) (step : Step) (cache : Cache)
    (call : CachedCall) : Prop where
  | unread (e : CacheError)
      (read : (cache.get step.times.asked call.key).1 = .error e)
      (answer : ¬ (event authenticate client step).FromCache)
      (server : (event authenticate client step).after.server = client.server)
      (stored : (event authenticate client step).stored? authenticate = none)
      (after : (event authenticate client step).after.cache
        = some (cache.get step.times.asked call.key).2)
  | served (body : Json)
      (read : (cache.get step.times.asked call.key).1 = .ok (some body))
      (answer : (event authenticate client step).answer? = some (.ok {
        operation := call.prepared.operation.name, status := 200, cached := true
        data := (pipeline call.prepared.operation.steps body).value }))
      (server : (event authenticate client step).after.server = client.server)
      (stored : (event authenticate client step).stored? authenticate = none)
      (after : (event authenticate client step).after.cache
        = some (cache.get step.times.asked call.key).2)
  | refused
      (read : (cache.get step.times.asked call.key).1 = .ok none)
      (answer : ¬ (event authenticate client step).FromCache)
      (sent : (event authenticate client step).after.server.requests
        = call.prepared.request :: client.server.requests)
      (stored : (event authenticate client step).stored? authenticate = none)
      (after : (event authenticate client step).after.cache
        = some (cache.get step.times.asked call.key).2)
  | fetched (data : Json)
      (read : (cache.get step.times.asked call.key).1 = .ok none)
      (answer : ¬ (event authenticate client step).FromCache)
      (sent : (event authenticate client step).after.server.requests
        = call.prepared.request :: client.server.requests)
      (stored : (event authenticate client step).stored? authenticate
        = some (call.key, { data, timestamp := step.times.stored, ttl := call.ttl }))
      (after : (event authenticate client step).after.cache
        = some ((cache.get step.times.asked call.key).2.set step.times.stored call.key data
            call.ttl).2)

/-- A call that may use the cache goes one of the four ways. -/
theorem consults (hcall : step.cachedCall? authenticate = some call)
    (hcache : client.cache = some cache) : Consults authenticate client step cache call := by
  have hevent := event_cachedCall hcall hcache
  -- The client of the call counts it, and is otherwise the one before the step.
  generalize hcounted : ({ client with calls := client.calls + 1 } : Client) = counted at hevent
  have hserver : counted.server = client.server := by rw [← hcounted]
  have hstored : ∀ {answer? after}, event authenticate client step
        = { step, before := client, answer?, after } →
      (event authenticate client step).stored? authenticate =
        if client.server.requests.length < after.server.requests.length then
          (call.prepared.operation.accepted?
            (client.server.exchange call.prepared.request).1).map fun response =>
              (call.key, { data := response.body, timestamp := step.times.stored, ttl := call.ttl })
        else none := by
    intro answer? after heq
    simp only [heq, Event.stored?, Event.executed, hcall, decide_eq_true_eq]
  have hstored := hstored hevent
  rcases counted.callCached_cases cache call.prepared call.key call.ttl step.times with
    ⟨e, hread, heq⟩ | ⟨body, hread, heq⟩ | ⟨hread, hrefused, e, heq⟩ |
      ⟨hread, response, haccepted, hafter, hsent, hcached⟩
  · refine .unread e hread ?_ ?_ ?_ ?_
    · simp [hevent, heq, Event.FromCache]
    · simp [hevent, heq, hserver]
    · simp [hstored, heq, hserver]
    · simp [hevent, heq]
  · refine .served body hread ?_ ?_ ?_ ?_
    · simp [hevent, heq, Client.deliver]
    · simp [hevent, heq, Client.deliver, hserver]
    · simp [hstored, heq, Client.deliver, hserver]
    · simp [hevent, heq, Client.deliver]
  · rw [hserver] at hrefused
    refine .refused hread ?_ ?_ ?_ ?_
    · simp [hevent, heq, Event.FromCache]
    · simp [hevent, heq, hserver, exchange_requests]
    · simp [hstored, hrefused]
    · simp [hevent, heq]
  · rw [hserver] at haccepted hsent
    refine .fetched response.body hread ?_ ?_ ?_ ?_
    · rintro ⟨outcome, hanswer, htrue⟩
      rw [hevent] at hanswer
      rw [hcached outcome (Option.some.inj hanswer)] at htrue
      cases htrue
    · rw [hevent, hsent, exchange_requests]
    · simp [hstored, hsent, exchange_requests, haccepted]
    · rw [hevent, hafter]

namespace Consults

/-- Only what the cache has is answered from it. -/
theorem read_of_fromCache (h : Consults authenticate client step cache call)
    (hcached : (event authenticate client step).FromCache) :
    ∃ body, (cache.get step.times.asked call.key).1 = .ok (some body) := by
  cases h with
  | unread e hread hanswer => exact absurd hcached hanswer
  | served body hread => exact ⟨body, hread⟩
  | refused hread hanswer => exact absurd hcached hanswer
  | fetched data hread hanswer => exact absurd hcached hanswer

/-- What the cache has is answered, in the shape of the operation, and nothing is sent. -/
theorem answer_of_read (h : Consults authenticate client step cache call) {body : Json}
    (hbody : (cache.get step.times.asked call.key).1 = .ok (some body)) :
    (event authenticate client step).answer? = some (.ok {
      operation := call.prepared.operation.name, status := 200, cached := true
      data := (pipeline call.prepared.operation.steps body).value }) ∧
    (event authenticate client step).after.server = client.server := by
  cases h with
  | unread e hread => rw [hread] at hbody; cases hbody
  | served found hread hanswer hserver =>
      rw [hread] at hbody
      cases hbody
      exact ⟨hanswer, hserver⟩
  | refused hread => rw [hread] at hbody; cases hbody
  | fetched data hread => rw [hread] at hbody; cases hbody

/-- Where the cache has nothing the request is sent. -/
theorem sent_of_read (h : Consults authenticate client step cache call)
    (hnone : (cache.get step.times.asked call.key).1 = .ok none) :
    (event authenticate client step).after.server.requests
      = call.prepared.request :: client.server.requests := by
  cases h with
  | unread e hread => rw [hread] at hnone; cases hnone
  | served body hread => rw [hread] at hnone; cases hnone
  | refused hread hanswer hsent => exact hsent
  | fetched data hread hanswer hsent => exact hsent

/-- If anything is sent it is the request. -/
theorem sent_of_executed (h : Consults authenticate client step cache call)
    (hexecuted : (event authenticate client step).executed = true) :
    (event authenticate client step).after.server.requests
      = call.prepared.request :: client.server.requests := by
  cases h with
  | unread e hread hanswer hserver => simp [Event.executed, hserver] at hexecuted
  | served body hread hanswer hserver => simp [Event.executed, hserver] at hexecuted
  | refused hread hanswer hsent => exact hsent
  | fetched data hread hanswer hsent => exact hsent

end Consults

/-! ### What an event does to the cache -/

/-- What an event can do to the cache, with what it changes in the log. -/
inductive CacheEffect (times : CallTimes) (cache : Cache) : Option Change → Cache → Prop where
  | clear (start : String) :
      CacheEffect times cache (some (.drop (·.startsWith start))) (cache.clearStart start).2
  | nothing : CacheEffect times cache none cache
  | read (key : String) : CacheEffect times cache none (cache.get times.asked key).2
  | store (key : String) (data : Json) (ttl : UInt64) :
      CacheEffect times cache (some (.store key { data, timestamp := times.stored, ttl }))
        ((cache.get times.asked key).2.set times.stored key data ttl).2

/-- A step that asks for nothing cached stores nothing. -/
theorem stored?_uncached (hcall : step.cachedCall? authenticate = none) :
    (event authenticate client step).stored? authenticate = none := by
  simp only [Event.stored?, event_step, hcall]

/-- Every event has one of the effects. -/
theorem cacheEffect_event (authenticate : Authenticator) (step : Step)
    (hcache : client.cache = some cache) :
    ∃ cache', (event authenticate client step).after.cache = some cache' ∧
      CacheEffect step.times cache ((event authenticate client step).change? authenticate)
        cache' := by
  obtain ⟨times, action⟩ := step
  cases action with
  | clearStart start =>
      exact ⟨(cache.clearStart start).2, by simp [event, hcache], .clear start⟩
  | call service options name arguments =>
      generalize hstep : (⟨times, .call service options name arguments⟩ : Step) = step
      have hchange : (event authenticate client step).change? authenticate
          = ((event authenticate client step).stored? authenticate).map
            fun (key, entry) => .store key entry := by
        simp only [Event.change?, event_step, ← hstep]
      rw [hchange]
      cases hcall : step.cachedCall? authenticate with
      | none =>
          rcases event_uncached client hcall with ⟨start, haction⟩ | ⟨hafter, -⟩
          · rw [← hstep] at haction
            cases haction
          · rw [stored?_uncached hcall]
            exact ⟨cache, hafter.trans hcache, .nothing⟩
      | some call =>
          -- Whether a read drops an entry or not, it changes nothing in the log.
          cases consults hcall hcache with
          | unread e hread hanswer hserver hstored hafter =>
              rw [hstored]
              exact ⟨_, hafter, .read call.key⟩
          | served body hread hanswer hserver hstored hafter =>
              rw [hstored]
              exact ⟨_, hafter, .read call.key⟩
          | refused hread hanswer hsent hstored hafter =>
              rw [hstored]
              exact ⟨_, hafter, .read call.key⟩
          | fetched data hread hanswer hsent hstored hafter =>
              rw [hstored]
              exact ⟨_, hafter, .store call.key data call.ttl⟩

/-- An effect keeps the entries backed by the log. -/
theorem CacheEffect.backed {times : CallTimes} {log : Log} {e : Event} {cache' : Cache}
    (h : CacheEffect times cache (e.change? authenticate) cache') (hbacked : Backed log cache) :
    Backed (Log.next (Event.change? authenticate) log e) cache' := by
  unfold Log.next
  generalize e.change? authenticate = change at h ⊢
  cases h with
  | clear start => exact hbacked.clearStart start
  | nothing => exact hbacked
  | read key => exact hbacked.get times.asked key
  | store key data ttl => exact (hbacked.get times.asked key).set times.stored key data ttl

/-- An effect keeps the relation between cache and log, from the time of the look-up to the time
of the store. -/
theorem CacheEffect.follows {times : CallTimes} {log : Log} {e : Event} {cache' : Cache}
    (h : CacheEffect times cache (e.change? authenticate) cache')
    (hfollows : Follows log times.asked cache) (hle : times.asked.toInt ≤ times.stored.toInt) :
    Follows (Log.next (Event.change? authenticate) log e) times.stored cache' := by
  unfold Log.next
  generalize e.change? authenticate = change at h ⊢
  cases h with
  | clear start => exact (hfollows.clearStart start).later hle
  | nothing => exact hfollows.later hle
  | read key => exact (hfollows.get key).later hle
  | store key data ttl =>
      -- Time passes between the two, and the entry is stored at the later time.
      exact ((hfollows.get key).later hle).set key data ttl

/-! ### The invariants of a session -/

/-- The log of a session. -/
def log (authenticate : Authenticator) (steps : List Step) (client : Client) : Log :=
  Log.ofHistory (Event.change? authenticate) (trace authenticate steps client)

/-- One more step is one more change of the log, if it changes anything. -/
theorem log_concat (steps : List Step) (last : Step) :
    log authenticate (steps ++ [last]) client
      = Log.next (Event.change? authenticate) (log authenticate steps client)
        (event authenticate (after authenticate steps client) last) := by
  rw [log, trace_concat, Log.ofHistory_concat]
  rfl

/-- The client after one more step is that after its event. -/
theorem after_concat (steps : List Step) (last : Step) :
    after authenticate (steps ++ [last]) client
      = (event authenticate (after authenticate steps client) last).after := by
  simp [after]

/-- Whatever happens in a session, what its cache holds comes from its log. -/
theorem backed_after (authenticate : Authenticator) (hcache : client.cache = some cache)
    (hempty : cache.entries = []) (steps : List Step) :
    ∃ cache', (after authenticate steps client).cache = some cache' ∧
      Backed (log authenticate steps client) cache' := by
  induction steps using List.reverseRecOn with
  | nil => exact ⟨cache, hcache, Cache.backed_empty hempty⟩
  | append_singleton steps last ih =>
      obtain ⟨before, hbefore, hbacked⟩ := ih
      obtain ⟨cache', hafter, heffect⟩ := cacheEffect_event authenticate last
        hbefore
      rw [after_concat, log_concat]
      exact ⟨cache', hafter, heffect.backed hbacked⟩

/-- One more step reads the clock twice more. -/
theorem readings_concat (steps : List Step) (last : Step) :
    readings (steps ++ [last])
      = readings steps ++ [last.times.asked] ++ [last.times.stored] := by
  simp [readings]

/-- The clock of a session up to the look-up of one of its calls. -/
theorem clock_of_getElem? {steps : List Step} (h : Clock (readings steps)) {i : Nat}
    (hstep : steps[i]? = some step) :
    Clock (readings (steps.take i) ++ [step.times.asked]) := by
  obtain ⟨hlt, hget⟩ := List.getElem?_eq_some_iff.mp hstep
  have hsplit : steps = steps.take i ++ [step] ++ steps.drop (i + 1) := by
    rw [← hget, List.append_assoc, List.singleton_append, List.getElem_cons_drop hlt,
      List.take_append_drop]
  rw [hsplit, readings, List.flatMap_append, ← readings, readings_concat] at h
  exact h.of_prefix.of_prefix

/-- After every session the cache holds what the log has, but for what is expired at the time
of the next step. -/
theorem follows_after (authenticate : Authenticator) (hcache : client.cache = some cache)
    (hfresh : cache.Fresh) (steps : List Step) (now : Int64)
    (hclock : Clock (readings steps ++ [now])) :
    ∃ cache', (after authenticate steps client).cache = some cache' ∧
      Follows (log authenticate steps client) now cache' := by
  induction steps using List.reverseRecOn generalizing now with
  | nil => exact ⟨cache, hcache, hfresh.follows now⟩
  | append_singleton steps last ih =>
      rw [readings_concat] at hclock
      obtain ⟨before, hbefore, hfollows⟩ := ih last.times.asked hclock.of_prefix.of_prefix
      obtain ⟨cache', hafter, heffect⟩ := cacheEffect_event authenticate last
        hbefore
      have hwithin : last.times.asked.toInt ≤ last.times.stored.toInt :=
        hclock.of_prefix.le_last (by simp)
      have hle : last.times.stored.toInt ≤ now.toInt := hclock.le_last (by simp)
      rw [after_concat, log_concat]
      -- The last step keeps the relation until its own end, and then only time passes.
      exact ⟨cache', hafter, (heffect.follows hfollows hwithin).later hle⟩

/-! ### Answers from the cache -/

/-- An event changes the log by storing exactly if it stores. -/
theorem change?_eq_store_iff {e : Event} {key : String} {entry : Entry} :
    e.change? authenticate = some (.store key entry)
      ↔ e.stored? authenticate = some (key, entry) := by
  unfold Event.change?
  split
  · next start haction =>
      -- A clearing is no call, so it stores nothing.
      have hcall : e.step.cachedCall? authenticate = none := by
        simp only [Step.cachedCall?, haction]
      simp [Event.stored?, hcall]
  · constructor
    · intro h
      obtain ⟨⟨key', entry'⟩, hstored, heq⟩ := Option.map_eq_some_iff.1 h
      cases heq
      exact hstored
    · intro h
      rw [h]
      rfl

/-- An event leaves a key alone exactly if it neither clears it nor stores under it. -/
theorem not_touches_iff {e : Event} {key : String} :
    (∀ change, e.change? authenticate = some change → ¬ change.touches key)
      ↔ ¬ e.Clears key ∧ ∀ entry, e.stored? authenticate ≠ some (key, entry) := by
  constructor
  · intro h
    refine ⟨?_, fun entry hstored => h _ (change?_eq_store_iff.mpr hstored) rfl⟩
    rintro ⟨start, haction, hstart⟩
    exact h (.drop (·.startsWith start)) (by simp only [Event.change?, haction]) hstart
  · rintro ⟨hclears, hstores⟩ change hchange htouches
    cases change with
    | store other entry =>
        cases htouches
        exact hstores entry (change?_eq_store_iff.mp hchange)
    | drop dropped =>
        -- Only a clearing drops.
        unfold Event.change? at hchange
        split at hchange
        · next start haction =>
            cases hchange
            exact hclears ⟨start, haction, htouches⟩
        · obtain ⟨_, -, heq⟩ := Option.map_eq_some_iff.1 hchange
          cases heq

/-- The latest event that stores under `key` stored `body` there at `time`, for `ttl` seconds,
and no event has cleared the key since. -/
def LatestStore (authenticate : Authenticator) (history : List Event) (key : String)
    (body : Json) (time : Int64) (ttl : UInt64) : Prop :=
  ∃ before source later, history = before ++ source :: later ∧
    source.stored? authenticate = some (key, { data := body, timestamp := time, ttl }) ∧
    ∀ e ∈ later, ¬ e.Clears key ∧ ∀ entry, e.stored? authenticate ≠ some (key, entry)

/-- The log of a session has the entry of the latest store. -/
theorem log_eq_some_iff {steps : List Step} {key : String} {entry : Entry} :
    log authenticate steps client key = some entry ↔
      LatestStore authenticate (trace authenticate steps client) key entry.data entry.timestamp
        entry.ttl := by
  rw [log, Log.ofHistory_eq_some_iff]
  constructor
  · rintro ⟨source, before, later, hsplit, hstore, hlater⟩
    exact ⟨before, source, later, hsplit, change?_eq_store_iff.mp hstore,
      fun e hmem => not_touches_iff.mp (hlater e hmem)⟩
  · rintro ⟨before, source, later, hsplit, hstored, hlater⟩
    exact ⟨source, before, later, hsplit, change?_eq_store_iff.mpr hstored,
      fun e hmem => not_touches_iff.mpr (hlater e hmem)⟩

/-- The latest store under the key of the call put `body` there, was not cleared since, and is
no older than the operation allows. -/
def FreshStore (authenticate : Authenticator) (history : List Event) (call : CachedCall)
    (now : Int64) (body : Json) : Prop :=
  ∃ time ttl, LatestStore authenticate history call.key body time ttl ∧
    now.toInt - time.toInt ≤ call.ttl.toNat * 1000

/-- The step is a clearing or a call for the service. -/
def Step.On (service : Service) (step : Step) : Prop :=
  match step.action with
  | .call other _ _ _ => other = service
  | .clearStart _ => True

/-- What an event stores is the accepted answer to a call that may use the cache. -/
theorem stored?_eq_some {e : Event} {key : String} {entry : Entry}
    (h : e.stored? authenticate = some (key, entry)) :
    ∃ source response, e.step.cachedCall? authenticate = some source ∧ e.executed = true ∧
      source.prepared.operation.accepted? (e.before.server.exchange source.prepared.request).1
        = some response ∧
      key = source.key ∧
      entry = { data := response.body, timestamp := e.step.times.stored, ttl := source.ttl } := by
  unfold Event.stored? at h
  split at h
  · next source hcall =>
      split at h
      · next hexecuted =>
          obtain ⟨response, haccepted, heq⟩ := Option.map_eq_some_iff.1 h
          cases heq
          exact ⟨source, response, hcall, hexecuted, haccepted, rfl, rfl⟩
      · cases h
  · cases h

/-- Calls of one service with one key have one operation, and so one time to live. -/
theorem ttl_eq_of_key_eq {service : Service} {step step' : Step} {call call' : CachedCall}
    (hstep : step.On service) (hstep' : step'.On service)
    (hcall : step.cachedCall? authenticate = some call)
    (hcall' : step'.cachedCall? authenticate = some call') (hkey : call.key = call'.key) :
    call.ttl = call'.ttl := by
  obtain ⟨_, _, _, haction, hprepare, -, httl⟩ := cachedCall?_eq_some hcall
  obtain ⟨_, _, _, haction', hprepare', -, httl'⟩ := cachedCall?_eq_some hcall'
  have hservice : call.service = service := by simpa only [Step.On, haction] using hstep
  have hservice' : call'.service = service := by simpa only [Step.On, haction'] using hstep'
  -- The service is one, so the keys differ by name of operation and digest at most.
  have hname : call.prepared.operation.name = call'.prepared.operation.name := by
    simp only [CachedCall.key, Prepared.key, hservice, hservice'] at hkey
    exact Cache.operation_eq_of_key_eq hkey
  have hoperation := Service.prepare_operation hprepare
  have hoperation' := Service.prepare_operation hprepare'
  rw [hservice, hname] at hoperation
  rw [hservice', hoperation] at hoperation'
  rw [Option.some.inj hoperation', httl'] at httl
  exact (Option.some.inj httl).symm

/-- What the log would serve for a call is the body of the fresh latest store. The age is a
plain difference of times, since no time of the session is negative. -/
theorem freshStore_iff_read {service : Service} {steps : List Step}
    (hservice : ∀ step ∈ steps, step.On service) (hon : step.On service)
    (hclock : Clock (readings steps ++ [step.times.asked]))
    (hcall : step.cachedCall? authenticate = some call) {body : Json} :
    FreshStore authenticate (trace authenticate steps client) call step.times.asked body ↔
      (log authenticate steps client).read step.times.asked call.key = some body := by
  have hage : ∀ {time ttl}, LatestStore authenticate (trace authenticate steps client) call.key
      body time ttl → (Cache.isExpiredAt time ttl step.times.asked = false ↔
        step.times.asked.toInt - time.toInt ≤ call.ttl.toNat * 1000) := by
    rintro time ttl ⟨before, source, later, hsplit, hstored, -⟩
    have hmem : source ∈ trace authenticate steps client := by simp [hsplit]
    obtain ⟨sourceCall, _, hsource, -, -, hkey, hentry⟩ := stored?_eq_some hstored
    cases hentry
    have hstep := (event_of_mem_trace authenticate hmem).2
    -- The stored lifetime is that of the call that made the entry. Calls with one key agree on it.
    have httl : sourceCall.ttl = call.ttl :=
      ttl_eq_of_key_eq (hservice _ hstep) hon hsource hcall hkey.symm
    have htime : 0 ≤ source.step.times.stored.toInt :=
      hclock.nonneg _ (List.mem_append_left _ (List.mem_flatMap.mpr ⟨_, hstep, by simp⟩))
    have hnow : 0 ≤ step.times.asked.toInt := hclock.nonneg _ (by simp)
    rw [← Bool.not_eq_true, Cache.isExpiredAt_iff htime hnow, httl]
    omega
  -- So the two sides differ only in how they say that the latest entry is not too old.
  rw [Log.read_eq_some_iff]
  constructor
  · rintro ⟨time, ttl, hlatest, hle⟩
    exact ⟨⟨body, time, ttl⟩, log_eq_some_iff.mpr hlatest, (hage hlatest).mpr hle, rfl⟩
  · rintro ⟨⟨data, time, ttl⟩, hlog, hunexpired, rfl⟩
    have hlatest := log_eq_some_iff.mp hlog
    exact ⟨time, ttl, hlatest, (hage hlatest).mp hunexpired⟩

/-- In a session on one service, a call that may use the cache is answered from it exactly when
the latest store under its key was not cleared since and is no older than the operation allows
when the call looks it up. Then the data is the stored body in the shape of the operation, and
nothing is sent. Otherwise exactly the prepared request is sent. -/
theorem answer_iff_freshStore (authenticate : Authenticator) (service : Service)
    (hcache : client.cache = some cache) (hfresh : cache.Fresh) {steps : List Step}
    (hservice : ∀ step ∈ steps, step.On service) (hclock : Clock (readings steps)) {i : Nat}
    (hstep : steps[i]? = some step) (hcall : step.cachedCall? authenticate = some call) :
    ∃ e, (trace authenticate steps client)[i]? = some e ∧
      (e.FromCache ↔ ∃ body,
        FreshStore authenticate ((trace authenticate steps client).take i) call step.times.asked
          body) ∧
      (∀ body,
        FreshStore authenticate ((trace authenticate steps client).take i) call step.times.asked
          body →
        e.answer? = some (.ok {
          operation := call.prepared.operation.name, status := 200, cached := true
          data := (pipeline call.prepared.operation.steps body).value }) ∧
        e.after.server = e.before.server) ∧
      ((¬ ∃ body,
        FreshStore authenticate ((trace authenticate steps client).take i) call step.times.asked
          body) →
        e.after.server.requests = call.prepared.request :: e.before.server.requests) := by
  have hprefix : Clock (readings (steps.take i) ++ [step.times.asked]) :=
    clock_of_getElem? hclock hstep
  have hon : step.On service := hservice step (List.mem_of_getElem? hstep)
  obtain ⟨cache', hbefore, hfollows⟩ :=
    follows_after authenticate hcache hfresh (steps.take i) step.times.asked hprefix
  -- A fresh store is what the log serves, and so what the cache does.
  have hiff : ∀ body, FreshStore authenticate ((trace authenticate steps client).take i) call
      step.times.asked body ↔ (cache'.get step.times.asked call.key).1 = .ok (some body) := by
    intro body
    rw [take_trace, freshStore_iff_read (fun step hmem => hservice step (List.mem_of_mem_take hmem))
      hon hprefix hcall, hfollows.get_eq_read call.key]
    simp
  refine ⟨event authenticate (after authenticate (steps.take i) client) step, ?_, ?_⟩
  · rw [getElem?_trace, hstep]
    rfl
  simp only [hiff, event_before]
  have hconsults := consults hcall hbefore
  refine ⟨⟨hconsults.read_of_fromCache, ?_⟩, fun body => hconsults.answer_of_read, ?_⟩
  · rintro ⟨body, hbody⟩
    exact ⟨_, (hconsults.answer_of_read hbody).1, rfl⟩
  · intro hnone
    -- The file can be written, so the read does not fail, and what it finds is nothing.
    have hread := hfollows.get_eq_read call.key
    cases hlog : (log authenticate (steps.take i) client).read step.times.asked call.key with
    | none => exact hconsults.sent_of_read (by rw [hread, hlog])
    | some body => exact absurd ⟨body, by rw [hread, hlog]⟩ hnone

/-- A service with one query, which may be served from the cache for a second. -/
def usersService : Service :=
  { name := "svc", baseUrl := "http://h"
    graphqlOperations := [{ name := "users", call := ⟨.query, "users"⟩, cacheSeconds := some 1 }] }

/-- The query is called at the given times. -/
def usersStep (times : CallTimes) : Step :=
  ⟨times, .call usersService {} "users" []⟩

/-- The query is called, its answer takes half a second, and it is called once more at the last
moment at which the response may be served. -/
def usersSteps : List Step :=
  [usersStep ⟨0, 500⟩, usersStep ⟨1500, 1500⟩]

/-- A client without entries, for which the server has one answer. -/
def usersClient : Client :=
  { server := { answers := [.ok ⟨200, .bool true⟩] }, cache := some {} }

/-- The second call is answered with the body of the first. -/
theorem answer_usersSteps : ∃ e,
    (trace .anonymous usersSteps usersClient)[1]? = some e ∧
      e.answer? = some (.ok {
        operation := "users", status := 200, cached := true, data := .bool true }) ∧
      e.after.server = e.before.server := by
  obtain ⟨e, htrace, -, hserved, -⟩ := answer_iff_freshStore .anonymous usersService
    (show usersClient.cache = some {} from rfl) ⟨rfl, StoreFile.isFree_absent⟩
    (show ∀ step ∈ usersSteps, step.On usersService by simp [usersSteps, usersStep, Step.On])
    (show Clock (readings usersSteps) from
      ⟨by simp [readings, usersSteps, usersStep], by simp [readings, usersSteps, usersStep]⟩)
    (show usersSteps[1]? = some (usersStep ⟨1500, 1500⟩) from rfl) rfl
  obtain ⟨hanswer, hserver⟩ := hserved (.bool true)
    ⟨500, 1, ⟨[], _, [], rfl, rfl, by simp⟩, by decide⟩
  exact ⟨e, htrace, hanswer, hserver⟩

end DeclaredApi.Session
