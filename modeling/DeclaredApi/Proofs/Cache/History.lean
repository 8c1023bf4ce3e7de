import DeclaredApi.Proofs.Cache.Log

/-!
# `DeclaredApi.Proofs.Cache.History`: reads of a cache, against a naive log

A run of a cache is a list of timed operations (`Step`), of which each answers a `Reply`.
`replies_get_iff` is the main statement: in a run that starts without entries, whose file can
be removed and written and whose clock never runs back, every read succeeds and answers what a log
that never evicts would answer. The read finds `data` exactly when the latest `set` of its key
stored `data`, nothing dropped the key since, and no more than `ttl * 1000` milliseconds have
passed (`LatestSet`). So that expired entries are dropped when they are read cannot be seen by
reading.

What one operation can do is listed once (`Course`), with the saving that may fail. Proofs about
single operations open `perform` with it (`course_perform`).

`follows_after` is the invariant that carries the main statement: after every prefix of the run
the cache `Follows` the log of that prefix. `follows_perform` is one step of it, a case for each
operation.
-/

set_option autoImplicit false

namespace DeclaredApi.Cache

/-- What a caller may ask of a cache. -/
inductive Operation where
  | get (key : String)
  | set (key : String) (data : Json) (ttl : UInt64)
  | invalidate (key : String)
  | clear
  | clearStart (start : String)
  /-- How many entries there are, and how many of them are expired. -/
  | stats
  /-- All entries, each with whether it is expired. -/
  | listing

/-- What a cache answers. -/
inductive Reply where
  | found (data : Option Json)
  | done
  | existed (existed : Bool)
  | removed (count : Nat)
  | stats (total expired : Nat)
  | listing (entries : List (String × Entry × Bool))

/-- The answer of an operation as a reply, with the cache after it. -/
def reply {α : Type} (wrap : α → Reply) (answer : Except CacheError α × Cache) :
    Except CacheError Reply × Cache :=
  (answer.1.map wrap, answer.2)

/-- Performs an operation at the time `now`. -/
def perform (now : Int64) (operation : Operation) (cache : Cache) :
    Except CacheError Reply × Cache :=
  match operation with
  | .get key => reply .found (cache.get now key)
  | .set key data ttl => reply (fun _ => .done) (cache.set now key data ttl)
  | .invalidate key => reply .existed (cache.invalidate key)
  | .clear => reply (fun _ => .done) cache.clear
  | .clearStart start => reply .removed (cache.clearStart start)
  | .stats => (.ok (.stats cache.entries.length (cache.expiredCount now)), cache)
  | .listing =>
    (.ok (.listing (cache.entries.map fun (key, entry) => (key, entry, entry.isExpired now))),
      cache)

/-- How an operation can go: what it answers, with the cache after it. -/
inductive Course (now : Int64) (cache : Cache) :
    Operation → Except CacheError Reply × Cache → Prop where
  /-- It answers, and leaves the entries and the file alone. -/
  | kept {operation : Operation} (r : Reply) {after : Cache}
    (entries : after.entries = cache.entries) (file : after.file = cache.file) :
    Course now cache operation (.ok r, after)
  /-- It drops entries in memory and saves the others. -/
  | dropped {operation : Operation} (r : Reply) (keep : String × Entry → Bool) {changed : Cache}
    (entries : changed.entries = cache.entries.filter keep) (file : changed.file = cache.file) :
    Course now cache operation (saveThen r changed)
  /-- It stores an entry in memory and saves all. -/
  | stored (key : String) (data : Json) (ttl : UInt64) :
    Course now cache (.set key data ttl) (saveThen .done { cache with
      entries := Dict.insert key { data, timestamp := now, ttl } cache.entries })
  /-- It is a `clear` that removes the file, drops all entries in memory and saves none. -/
  | cleared (removable : cache.file.removeFault? = none) :
    Course now cache .clear
      (saveThen .done { cache with entries := [], file := cache.file.remove })
  /-- It is a `clear` that cannot remove the file. -/
  | refused {fault : FileFault} (unremovable : cache.file.removeFault? = some fault) :
    Course now cache .clear (.error fault.error, cache)

/-- It makes no difference whether an answer is wrapped before or after the write. -/
theorem reply_saveThen {α : Type} (wrap : α → Reply) (result : α) (cache : Cache) :
    reply wrap (saveThen result cache) = saveThen (wrap result) cache := by
  unfold reply saveThen
  generalize cache.save = saved
  obtain ⟨_ | _, after⟩ := saved <;> rfl

/-- Every operation goes in one of these ways. -/
theorem course_perform (now : Int64) (operation : Operation) (cache : Cache) :
    Course now cache operation (perform now operation cache) := by
  cases operation with
  | get key =>
      rw [perform]
      rcases get_cases now key cache with ⟨-, heq⟩ | ⟨_, -, -, heq⟩ | ⟨_, -, -, heq⟩
      · rw [heq]
        exact .kept _ rfl rfl
      · rw [heq, reply_saveThen]
        exact .dropped _ _ rfl rfl
      · rw [heq]
        exact .kept _ rfl rfl
  | set key data ttl => exact .stored key data ttl
  | invalidate key =>
      rw [perform, invalidate]
      split
      · rw [reply_saveThen]
        exact .dropped _ _ rfl rfl
      · exact .kept _ rfl rfl
  | clear =>
      rw [perform, clear]
      split
      · next hfault => exact .refused hfault
      · next hfault => exact .cleared hfault
  | clearStart start =>
      rw [perform, clearStart, reply_saveThen]
      exact .dropped _ _ rfl rfl
  | stats => exact .kept _ rfl rfl
  | listing => exact .kept _ rfl rfl

/-- An operation with the time at which it is performed. -/
structure Step where
  now : Int64
  operation : Operation

/-- The cache after a run. -/
def after (steps : List Step) (cache : Cache) : Cache :=
  steps.foldl (fun cache step => (perform step.now step.operation cache).2) cache

/-- The answers of a run, in order. -/
def replies : List Step → Cache → List (Except CacheError Reply)
  | [], _ => []
  | step :: rest, cache =>
    let (answer, cache) := perform step.now step.operation cache
    answer :: replies rest cache

/-- The answer of a step is that of its operation on the cache after the steps before it. -/
theorem getElem?_replies (steps : List Step) (cache : Cache) (i : Nat) :
    (replies steps cache)[i]?
      = steps[i]?.map fun step =>
          (perform step.now step.operation (after (steps.take i) cache)).1 := by
  induction steps generalizing cache i with
  | nil => simp [replies]
  | cons step rest ih =>
      cases i with
      | zero => simp [replies, after]
      | succ i => simpa [replies, after] using ih (perform step.now step.operation cache).2 i

/-! ### The log of a run -/

/-- Whether an operation stores under `key` or drops it. -/
def Operation.touches (key : String) : Operation → Prop
  | .set other _ _ => other = key
  | .invalidate other => other = key
  | .clear => True
  | .clearStart start => key.startsWith start = true
  | _ => False

/-- The latest operation of the history that touches `key` stored `data` there at `time`, to
be served for `ttl` seconds. -/
def LatestSet (history : List Step) (key : String) (data : Json) (time : Int64)
    (ttl : UInt64) : Prop :=
  ∃ before later, history = before ++ ⟨time, .set key data ttl⟩ :: later ∧
    ∀ step ∈ later, ¬ step.operation.touches key

/-- What a step changes in the log. -/
def Step.change? (step : Step) : Option Change :=
  match step.operation with
  | .set key data ttl => some (.store key { data, timestamp := step.now, ttl })
  | .invalidate key => some (.drop (key == ·))
  | .clear => some (.drop fun _ => true)
  | .clearStart start => some (.drop (·.startsWith start))
  | _ => none

/-- A step changes the log under a key exactly when its operation touches the key. -/
theorem change?_touches_iff (step : Step) (key : String) :
    (∀ change, step.change? = some change → ¬ change.touches key)
      ↔ ¬ step.operation.touches key := by
  cases hop : step.operation <;>
    simp [Step.change?, hop, Change.touches, Operation.touches]

/-- The log of a run has the entry of the latest `set`. -/
theorem ofHistory_steps_iff {history : List Step} {key : String} {entry : Entry} :
    Log.ofHistory Step.change? history key = some entry ↔
      LatestSet history key entry.data entry.timestamp entry.ttl := by
  rw [Log.ofHistory_eq_some_iff]
  constructor
  · rintro ⟨step, before, later, hsplit, hstore, hlater⟩
    -- Only a `set` stores, and what it stores names its own time.
    have hstep : step = ⟨entry.timestamp, .set key entry.data entry.ttl⟩ := by
      obtain ⟨now, operation⟩ := step
      cases operation <;> simp [Step.change?] at hstore
      obtain ⟨rfl, rfl⟩ := hstore
      rfl
    subst hstep
    exact ⟨before, later, hsplit, fun step hmem =>
      (change?_touches_iff step key).mp (hlater step hmem)⟩
  · rintro ⟨before, later, hsplit, hlater⟩
    exact ⟨_, before, later, hsplit, rfl, fun step hmem =>
      (change?_touches_iff step key).mpr (hlater step hmem)⟩

/-! ### The invariant -/

/-- A step keeps the relation between cache and log. -/
theorem follows_perform {log : Log} {cache : Cache} (step : Step)
    (h : Follows log step.now cache) :
    Follows (Log.next Step.change? log step) step.now
      (perform step.now step.operation cache).2 := by
  obtain ⟨now, operation⟩ := step
  cases operation with
  | get key => exact h.get key
  | set key data ttl => exact h.set key data ttl
  | invalidate key => exact h.invalidate key
  | clear => exact h.clear
  | clearStart start => exact h.clearStart start
  | stats => exact h
  | listing => exact h

/-- After every run the cache holds what the log of the run has, but for what is expired at
the time of the next step. The induction follows the run from its end: the cache before the
last step followed the log at that step's time, and only time passes after it. -/
theorem follows_after {start : Cache} (hstart : start.Fresh) (history : List Step) (now : Int64)
    (hclock : Clock (history.map (·.now) ++ [now])) :
    Follows (Log.ofHistory Step.change? history) now (after history start) := by
  induction history using List.reverseRecOn generalizing now with
  | nil => exact hstart.follows now
  | append_singleton history last ih =>
      have hmap : (history ++ [last]).map (·.now) = history.map (·.now) ++ [last.now] := by simp
      rw [hmap] at hclock
      have hlast := follows_perform last (ih last.now hclock.of_prefix)
      have hle : last.now.toInt ≤ now.toInt := hclock.le_last (by simp)
      rw [Log.ofHistory_concat]
      simpa [after] using hlast.later hle

/-- Every read of a run answers what a log that never evicts would answer: the data of the
latest `set` of the key, if nothing dropped the key since and no more milliseconds have passed
than it may be served, and nothing otherwise. -/
theorem replies_get_iff {start : Cache} (hstart : start.Fresh) {steps : List Step}
    (hclock : Clock (steps.map (·.now))) {i : Nat} {now : Int64} {key : String}
    (hget : steps[i]? = some ⟨now, .get key⟩) :
    ∃ found, (replies steps start)[i]? = some (.ok (.found found)) ∧
      ∀ data, found = some data ↔
        ∃ time ttl, LatestSet (steps.take i) key data time ttl ∧
          now.toInt - time.toInt ≤ ttl.toNat * 1000 := by
  have hprefix : Clock ((steps.take i).map (·.now) ++ [now]) := hclock.of_getElem? hget
  have hfollows := follows_after hstart (steps.take i) now hprefix
  refine ⟨Log.read (Log.ofHistory Step.change? (steps.take i)) now key, ?_, fun data => ?_⟩
  · rw [getElem?_replies, hget]
    simp only [Option.map_some, perform, reply, hfollows.get_eq_read key]
    rfl
  · rw [Log.read_eq_some_iff]
    -- Within the run no time is negative, so the entry's age is a plain difference.
    have hage : ∀ {data : Json} {time : Int64} {ttl : UInt64},
        LatestSet (steps.take i) key data time ttl →
        (isExpiredAt time ttl now = false ↔ now.toInt - time.toInt ≤ ttl.toNat * 1000) := by
      rintro data time ttl ⟨before, later, hhistory, -⟩
      have htime : 0 ≤ time.toInt := hprefix.nonneg time (by simp [hhistory])
      have hnow : 0 ≤ now.toInt := hprefix.nonneg now (by simp)
      rw [← Bool.not_eq_true, isExpiredAt_iff htime hnow]
      omega
    constructor
    · rintro ⟨entry, hlog, hfresh, rfl⟩
      have hset := ofHistory_steps_iff.mp hlog
      exact ⟨entry.timestamp, entry.ttl, hset, (hage hset).mp hfresh⟩
    · rintro ⟨time, ttl, hset, hle⟩
      exact ⟨⟨data, time, ttl⟩, ofHistory_steps_iff.mpr hset, (hage hset).mpr hle, rfl⟩

/-- A run that reads a key at the last moment it may be served, and one millisecond later. -/
def boundaryRun : List Step :=
  [⟨0, .set "users" (.bool true) 1⟩, ⟨1000, .get "users"⟩, ⟨1001, .get "users"⟩]

/-- The read at the last moment finds the data. -/
theorem replies_boundaryRun :
    (replies boundaryRun {})[1]? = some (.ok (.found (some (.bool true)))) := by
  obtain ⟨found, hreply, hfound⟩ := replies_get_iff
    (show Fresh {} from ⟨rfl, StoreFile.isFree_absent⟩)
    (show Clock (boundaryRun.map (·.now)) from ⟨by simp [boundaryRun], by simp [boundaryRun]⟩)
    (show boundaryRun[1]? = some ⟨1000, .get "users"⟩ from rfl)
  have hset : found = some (.bool true) :=
    (hfound _).mpr ⟨0, 1, ⟨[], [], rfl, by simp⟩, by decide⟩
  rw [hreply, hset]

end DeclaredApi.Cache
