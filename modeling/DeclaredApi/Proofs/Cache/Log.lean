import DeclaredApi.Proofs.Cache.Effect
import DeclaredApi.Proofs.Cache.Expiry
import Mathlib.Data.List.Induction

/-!
# `DeclaredApi.Proofs.Cache.Log`: a log that never evicts, beside a cache

A cache drops an expired entry when it is read. A `Log` is the map that would be kept without
that: a total function from keys to entries, which only stores and drops (`Change`) alter.
`Log.ofHistory` reads the log off a history of events of any kind, of which each makes at most
one change, and `ofHistory_eq_some_iff` says what such a log holds: the entry of the latest
store under a key, unless a later event dropped the key.

`Follows log now cache` is the relation between the two. All that the cache holds is in the
log, and all that is in the log and not expired at `now` is in the cache. Each operation of the
cache keeps it, together with the change the operation makes to the log (`Follows.get`,
`Follows.set`, …), and time that passes keeps it too (`Follows.later`), because an expired
entry stays expired. A read therefore answers what the log has (`Log.read`), evicted or not.

`Backed` is the half of the relation that needs no file that can be written and no clock that
runs forward: whatever the cache holds comes from the log.
-/

set_option autoImplicit false

namespace DeclaredApi.Cache

/-- A change to what is stored. -/
inductive Change where
  | store (key : String) (entry : Entry)
  /-- Drops every key for which `dropped` holds. -/
  | drop (dropped : String → Bool)

/-- Whether what is stored under a key before the change does not matter after it. -/
def Change.touches (key : String) : Change → Prop
  | .store other _ => other = key
  | .drop dropped => dropped key = true

/-- What was stored under each key and not dropped. Nothing expires in it. -/
abbrev Log := String → Option Entry

namespace Log

/-- The log of no event. -/
def empty : Log :=
  fun _ => none

/-- The log after one more change. -/
def apply (log : Log) : Change → Log
  | .store key entry => fun other => if key = other then some entry else log other
  | .drop dropped => fun other => if dropped other then none else log other

/-- The data under `key` that may still be served at `now`. -/
def read (log : Log) (now : Int64) (key : String) : Option Json :=
  match log key with
  | some entry => if entry.isExpired now then none else some entry.data
  | none => none

/-- What is served is the data of an entry that is not expired. -/
theorem read_eq_some_iff {log : Log} {now : Int64} {key : String} {data : Json} :
    log.read now key = some data ↔
      ∃ entry, log key = some entry ∧ entry.isExpired now = false ∧ entry.data = data := by
  unfold read
  cases log key with
  | none => simp
  | some entry => cases hexp : entry.isExpired now <;> simp [hexp]

section History

variable {ε : Type} (change? : ε → Option Change)

/-- The log after an event. -/
def next (log : Log) (event : ε) : Log :=
  match change? event with
  | some change => log.apply change
  | none => log

/-- The log of a history, the earliest event first. -/
def ofHistory (history : List ε) : Log :=
  history.foldl (next change?) empty

/-- Before the first event nothing is logged. -/
@[simp] theorem ofHistory_nil : ofHistory change? [] = empty :=
  rfl

/-- One more event is one more step of the log. -/
@[simp] theorem ofHistory_concat (history : List ε) (event : ε) :
    ofHistory change? (history ++ [event]) = next change? (ofHistory change? history) event := by
  simp [ofHistory]

/-- What the log has after an event is what the event stores, or what was there before if the
event does not touch the key. -/
theorem next_eq_some_iff {log : Log} {event : ε} {key : String} {entry : Entry} :
    next change? log event key = some entry ↔
      change? event = some (.store key entry) ∨
        (log key = some entry ∧ ∀ change, change? event = some change → ¬ change.touches key) := by
  unfold next
  cases hchange : change? event with
  | none => simp
  | some change =>
      cases change with
      | store other stored => by_cases hkey : other = key <;> simp [apply, Change.touches, hkey]
      | drop dropped => cases hkey : dropped key <;> simp [apply, Change.touches, hkey]

/-- `event` is the latest event of the history that touches `key`, and it stores `entry`. -/
def Latest (history : List ε) (event : ε) (key : String) (entry : Entry) : Prop :=
  ∃ before after, history = before ++ event :: after ∧
    change? event = some (.store key entry) ∧
    ∀ later ∈ after, ∀ change, change? later = some change → ¬ change.touches key

/-- The two places an event can have in a history with one more event at its end. -/
theorem concat_eq_append_cons_iff {history before after : List ε} {last event : ε} :
    history ++ [last] = before ++ event :: after ↔
      (after = [] ∧ history = before ∧ last = event) ∨
        ∃ init, after = init ++ [last] ∧ history = before ++ event :: init := by
  rcases List.eq_nil_or_concat after with rfl | ⟨init, final, rfl⟩
  · simp
  · rw [List.concat_eq_append]
    constructor
    · intro h
      rw [← List.cons_append, ← List.append_assoc] at h
      obtain ⟨hinit, hlast⟩ := List.append_inj' h rfl
      cases hlast
      exact Or.inr ⟨init, rfl, hinit⟩
    · rintro (⟨hnil, -⟩ | ⟨other, heq, rfl⟩)
      · exact absurd hnil (by simp)
      · simp [heq]

/-- The latest event of a longer history is its last one, or the one of the shorter history
if the last one does not touch the key. -/
theorem latest_concat_iff {history : List ε} {last event : ε} {key : String} {entry : Entry} :
    Latest change? (history ++ [last]) event key entry ↔
      (last = event ∧ change? last = some (.store key entry)) ∨
        (Latest change? history event key entry ∧
          ∀ change, change? last = some change → ¬ change.touches key) := by
  constructor
  · rintro ⟨before, after, hsplit, hstore, hafter⟩
    rcases concat_eq_append_cons_iff.mp hsplit with ⟨rfl, rfl, rfl⟩ | ⟨init, rfl, rfl⟩
    · -- The event is the last one.
      exact Or.inl ⟨rfl, hstore⟩
    · -- The event stands in the shorter history, and the last one comes after it.
      refine Or.inr ⟨⟨before, init, rfl, hstore, fun later hmem => ?_⟩, hafter last (by simp)⟩
      exact hafter later (List.mem_append_left _ hmem)
  · rintro (⟨rfl, hstore⟩ | ⟨⟨before, after, rfl, hstore, hafter⟩, hlast⟩)
    · exact ⟨history, [], rfl, hstore, by simp⟩
    · refine ⟨before, after ++ [last], by simp, hstore, fun later hmem => ?_⟩
      rcases List.mem_append.mp hmem with hmem | hmem
      · exact hafter later hmem
      · rw [List.mem_singleton.mp hmem]
        exact hlast

/-- The log has an entry under a key exactly when the latest event that touches the key
stores it. The induction follows the history from its end, one event a step. -/
theorem ofHistory_eq_some_iff {history : List ε} {key : String} {entry : Entry} :
    ofHistory change? history key = some entry ↔
      ∃ event, Latest change? history event key entry := by
  induction history using List.reverseRecOn with
  | nil => simp [empty, Latest]
  | append_singleton history last ih =>
      rw [ofHistory_concat, next_eq_some_iff, ih]
      simp only [latest_concat_iff, exists_or, exists_eq_left', exists_and_right]

end History
end Log

/-! ### The cache and its log -/

/-- Whatever the cache holds is in the log. -/
def Backed (log : Log) (cache : Cache) : Prop :=
  ∀ key entry, Dict.find? key cache.entries = some entry → log key = some entry

/-- The cache can remove and write its file, and it holds what the log has, but for entries that
are expired at `now`. -/
structure Follows (log : Log) (now : Int64) (cache : Cache) : Prop where
  free : cache.file.IsFree
  backed : Backed log cache
  kept : ∀ key entry, log key = some entry → entry.isExpired now = false →
    Dict.find? key cache.entries = some entry

namespace Backed

variable {log : Log} {cache : Cache}

/-- A read can only drop entries. -/
theorem get (h : Backed log cache) (now : Int64) (key : String) :
    Backed log (cache.get now key).2 := by
  rcases get_cases now key cache with ⟨-, heq⟩ | ⟨entry, -, -, heq⟩ | ⟨entry, -, -, heq⟩
  · rw [heq]; exact h
  · rw [heq]
    intro other found hfound
    rw [entries_saveThen, Dict.find?_erase] at hfound
    split at hfound
    · exact absurd hfound (by simp)
    · exact h other found hfound
  · rw [heq]; exact h

/-- A `set` writes one entry, and the log notes it under its time. -/
theorem set (h : Backed log cache) (now : Int64) (key : String) (data : Json) (ttl : UInt64) :
    Backed (log.apply (.store key { data, timestamp := now, ttl }))
      (cache.set now key data ttl).2 := by
  intro other found hfound
  rw [find?_set] at hfound
  simp only [Log.apply]
  split at hfound
  · next hkey => rw [if_pos hkey]; exact hfound
  · next hkey => rw [if_neg hkey]; exact h other found hfound

/-- A `clearStart` drops what it drops in the log. -/
theorem clearStart (h : Backed log cache) (start : String) :
    Backed (log.apply (.drop (·.startsWith start))) (cache.clearStart start).2 := by
  intro key found hfound
  rw [find?_clearStart] at hfound
  simp only [Log.apply]
  split at hfound
  · exact absurd hfound (by simp)
  · next hkey => rw [if_neg hkey]; exact h key found hfound

/-- An `invalidate` drops its key, if it is there, and the log has nothing else under it. -/
theorem invalidate (h : Backed log cache) (key : String) :
    Backed (log.apply (.drop (key == ·))) (cache.invalidate key).2 := by
  intro other found hfound
  rw [find?_invalidate] at hfound
  split at hfound
  · exact absurd hfound (by simp)
  · next hkey => simpa [Log.apply, hkey] using h other found hfound

/-- After a `clear` there is nothing left to be backed. -/
theorem clear (hfile : cache.file.IsFree) :
    Backed (log.apply (.drop fun _ => true)) cache.clear.2 := by
  intro key found hfound
  rw [clear_of_isFree hfile] at hfound
  simp [Dict.find?] at hfound

end Backed

namespace Follows

variable {log : Log} {now : Int64} {cache : Cache}

/-- Time that passes keeps the relation: what is expired stays expired. -/
theorem later {next : Int64} (h : Follows log now cache) (hle : now.toInt ≤ next.toInt) :
    Follows log next cache where
  free := h.free
  backed := h.backed
  kept key entry hlog hfresh := by
    refine h.kept key entry hlog ?_
    cases hexp : entry.isExpired now with
    | false => rfl
    | true =>
        have hstill : entry.isExpired next = true := isExpiredAt_of_le hle hexp
        exact absurd hfresh (by simp [hstill])

/-- A read answers what the log has, whether the entry is still there or not. -/
theorem get_eq_read (h : Follows log now cache) (key : String) :
    (cache.get now key).1 = .ok (log.read now key) := by
  rcases get_cases now key cache with
    ⟨hfind, heq⟩ | ⟨entry, hfind, hexp, heq⟩ | ⟨entry, hfind, hfresh, heq⟩
  · -- Nothing is there, so the log has nothing that is not expired.
    rw [heq]
    cases hlog : log key with
    | none => simp [Log.read, hlog]
    | some entry =>
        cases hexp : entry.isExpired now with
        | true => simp [Log.read, hlog, hexp]
        | false => simp [h.kept key entry hlog hexp] at hfind
  · -- What is there is expired. It is dropped, and the log does not serve it either.
    have hfile : ({ cache with
          misses := cache.misses + 1
          entries := Dict.erase key cache.entries } : Cache).file.IsFree := h.free
    rw [heq, saveThen_of_writable hfile.writable]
    simp [Log.read, h.backed key entry hfind, hexp]
  · -- What is served is in the log, as everything that the cache holds.
    rw [heq]
    simp [Log.read, h.backed key entry hfind, hfresh]

/-- A read keeps the relation: all it may drop is an entry that is expired. -/
theorem get (h : Follows log now cache) (key : String) :
    Follows log now (cache.get now key).2 where
  free := isFree_get h.free now key
  backed := h.backed.get now key
  kept other found hlog hfresh := by
    have hfound := h.kept other found hlog hfresh
    rcases get_cases now key cache with ⟨-, heq⟩ | ⟨entry, hfind, hexp, heq⟩ | ⟨_, -, -, heq⟩
    · rw [heq]; exact hfound
    · rw [heq, entries_saveThen, Dict.find?_erase]
      split
      · next hkey =>
          -- The dropped entry is expired, so it is not one that must be kept.
          subst hkey
          rw [hfind] at hfound
          cases hfound
          exact absurd hfresh (by simp [hexp])
      · exact hfound
    · rw [heq]; exact hfound

/-- A `set` is followed by storing under its key at that time. -/
theorem set (h : Follows log now cache) (key : String) (data : Json) (ttl : UInt64) :
    Follows (log.apply (.store key { data, timestamp := now, ttl })) now
      (cache.set now key data ttl).2 where
  free := isFree_set h.free now key data ttl
  backed := h.backed.set now key data ttl
  kept other found hlog hfresh := by
    rw [find?_set]
    simp only [Log.apply] at hlog
    split at hlog
    · next hkey => rw [if_pos hkey]; exact hlog
    · next hkey => rw [if_neg hkey]; exact h.kept other found hlog hfresh

/-- An `invalidate` is followed by dropping its key. -/
theorem invalidate (h : Follows log now cache) (key : String) :
    Follows (log.apply (.drop (key == ·))) now (cache.invalidate key).2 where
  free := isFree_invalidate h.free key
  backed := h.backed.invalidate key
  kept other found hlog hfresh := by
    by_cases hkey : key = other
    · simp [Log.apply, hkey] at hlog
    · rw [find?_invalidate, if_neg hkey]
      exact h.kept other found (by simpa [Log.apply, hkey] using hlog) hfresh

/-- A `clear` is followed by dropping all keys. -/
theorem clear (h : Follows log now cache) :
    Follows (log.apply (.drop fun _ => true)) now cache.clear.2 where
  free := by
    rw [clear_of_isFree h.free]
    exact StoreFile.isFree_text _
  backed := Backed.clear h.free
  kept key found hlog _ := by simp [Log.apply] at hlog

/-- A `clearStart` is followed by dropping the keys with that start. -/
theorem clearStart (h : Follows log now cache) (start : String) :
    Follows (log.apply (.drop (·.startsWith start))) now (cache.clearStart start).2 where
  free := isFree_clearStart h.free start
  backed := h.backed.clearStart start
  kept key found hlog hfresh := by
    rw [find?_clearStart]
    simp only [Log.apply] at hlog
    split at hlog
    · exact absurd hlog (by simp)
    · next hkey => rw [if_neg hkey]; exact h.kept key found hlog hfresh

end Follows

/-! ### Where a run starts, and its clock -/

/-- A cache without entries that can remove and write its file. -/
structure Fresh (cache : Cache) : Prop where
  empty : cache.entries = []
  free : cache.file.IsFree

/-- A cache without entries holds what the log of no event has. -/
theorem backed_empty {cache : Cache} (h : cache.entries = []) : Backed Log.empty cache := by
  intro key entry hfind
  simp [h, Dict.find?] at hfind

/-- A new cache follows the log without entries. -/
theorem Fresh.follows {cache : Cache} (h : cache.Fresh) (now : Int64) :
    Follows Log.empty now cache where
  free := h.free
  backed := backed_empty h.empty
  kept key entry hlog _ := by simp [Log.empty] at hlog

/-- The times of a clock that is never negative and never runs back. -/
structure Clock (times : List Int64) : Prop where
  nonneg : ∀ time ∈ times, 0 ≤ time.toInt
  ordered : times.Pairwise fun earlier later => earlier.toInt ≤ later.toInt

/-- The clock of a run up to one of its steps. -/
theorem Clock.of_prefix {times more : List Int64} (h : Clock (times ++ more)) : Clock times where
  nonneg time hmem := h.nonneg time (List.mem_append_left _ hmem)
  ordered := (List.pairwise_append.mp h.ordered).1

/-- No time of a run is later than its last one. -/
theorem Clock.le_last {times : List Int64} {last time : Int64} (h : Clock (times ++ [last]))
    (hmem : time ∈ times) : time.toInt ≤ last.toInt :=
  (List.pairwise_append.mp h.ordered).2.2 time hmem last (by simp)

/-- The clock of timed steps up to one of them. -/
theorem Clock.of_getElem? {σ : Type} {time : σ → Int64} {steps : List σ}
    (h : Clock (steps.map time)) {i : Nat} {step : σ} (hstep : steps[i]? = some step) :
    Clock ((steps.take i).map time ++ [time step]) := by
  obtain ⟨hlt, hget⟩ := List.getElem?_eq_some_iff.mp hstep
  have hsplit : steps = steps.take i ++ step :: steps.drop (i + 1) := by
    rw [← hget, List.getElem_cons_drop hlt, List.take_append_drop]
  rw [hsplit, List.map_append, List.map_cons, List.append_cons] at h
  exact h.of_prefix

end DeclaredApi.Cache
