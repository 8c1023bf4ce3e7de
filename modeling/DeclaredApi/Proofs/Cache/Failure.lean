import DeclaredApi.Proofs.Cache.History

/-!
# `DeclaredApi.Proofs.Cache.Failure`: what a failed operation leaves in memory

An operation fails when it has to write the file and cannot, and `clear` also when it has to remove
the file and cannot (`failure_cases`). A write comes last in every operation, after memory has
changed, and saving does not look at what the entries were before. Only the removal comes before
any change.

`entries_after_failure` says what is left. A `clear` that cannot remove the file leaves the cache
as it was. Every other operation that fails leaves in memory just what it would have left on a
file that is free, so memory runs ahead of the file by that operation. In particular a `clear` that
removes the file and cannot write a new one has dropped all entries: its directory is gone, or there
is no space. The entries are those from before the operation only where it had nothing to change
(`Operation.Idle`).

So it is not so that a failed operation leaves the entries alone, be it a `clear` or another one
(`not_entries_kept_by_failure`).
-/

set_option autoImplicit false

namespace DeclaredApi.Cache

/-- The operation leaves every key of the cache as it finds it, even where it writes the file.
A `clear` that cannot remove the file counts as such because it gives up before it drops
anything. -/
def Operation.Idle (now : Int64) (cache : Cache) : Operation → Prop
  | .set key data ttl => Dict.find? key cache.entries = some { data, timestamp := now, ttl }
  | .clear => cache.file.removeFault? ≠ none ∨ ∀ key, Dict.find? key cache.entries = none
  | .clearStart start => ∀ key, key.startsWith start = true → Dict.find? key cache.entries = none
  | _ => False

variable {cache : Cache} {now : Int64} {operation : Operation} {e : CacheError}

/-! ### When an operation fails -/

/-- Saving fails only where the file cannot be written, and leaves what a failed write leaves. -/
theorem saveThen_failure {r : Reply} (h : (saveThen r cache).1 = .error e) :
    ∃ fault : FileFault, e = fault.error ∧ cache.file.writeFault? = some fault ∧
      (saveThen r cache).2.file = cache.file.spoil := by
  cases hfault : cache.file.writeFault? with
  | none =>
      rw [saveThen_of_writable hfault] at h
      cases h
  | some fault =>
      rw [saveThen_of_fault hfault] at h
      cases h
      exact ⟨fault, rfl, rfl, (file_saveThen r cache).trans
        (StoreFile.overwrite_of_fault hfault _).1⟩

/-- An operation fails in two ways: it is a `clear` that cannot remove the file, and changes
nothing, or the file cannot be written in the end. -/
theorem failure_cases (h : (perform now operation cache).1 = .error e) :
    ∃ fault : FileFault, e = fault.error ∧
      ((operation = .clear ∧ cache.file.removeFault? = some fault ∧
          (perform now operation cache).2 = cache) ∨
        (cache.file.writeFault? = some fault ∧
          (perform now operation cache).2.file = cache.file.spoil)) := by
  have hcourse := course_perform now operation cache
  generalize perform now operation cache = result at hcourse h
  cases hcourse with
  | kept => cases h
  | dropped r keep entries file =>
      obtain ⟨fault, rfl, hfault, hspoil⟩ := saveThen_failure h
      rw [file] at hfault hspoil
      exact ⟨fault, rfl, Or.inr ⟨hfault, hspoil⟩⟩
  | stored key data ttl =>
      obtain ⟨fault, rfl, hfault, hspoil⟩ := saveThen_failure h
      exact ⟨fault, rfl, Or.inr ⟨hfault, hspoil⟩⟩
  | cleared removable =>
      obtain ⟨fault, rfl, hfault, -⟩ := saveThen_failure h
      rw [StoreFile.writeFault?_remove] at hfault
      exact ⟨fault, rfl, Or.inr ⟨hfault, (file_saveThen _ _).trans
        (StoreFile.overwrite_of_fault hfault _).2⟩⟩
  | @refused fault unremovable =>
      cases h
      exact ⟨fault, rfl, Or.inl ⟨rfl, unremovable, rfl⟩⟩

/-! ### What it leaves in memory -/

/-- A `clear` that can remove the file drops all entries, whether it can write a new one or not. -/
theorem entries_clear (h : cache.file.removeFault? = none) : cache.clear.2.entries = [] := by
  simp only [clear, h, entries_save]

/-- An operation does the same to the entries whatever the file is, unless it is a `clear` that
cannot remove it. -/
theorem entries_perform_file {file : StoreFile}
    (h : operation = .clear → cache.file.removeFault? = none ∧ file.removeFault? = none) :
    (perform now operation { cache with file }).2.entries
      = (perform now operation cache).2.entries := by
  cases operation with
  | get key =>
      simp only [perform, reply, get]
      cases Dict.find? key cache.entries with
      | none => rfl
      | some entry =>
          simp only
          split
          · rw [entries_saveThen, entries_saveThen]
          · rfl
  | set key data ttl => simp only [perform, reply, set, entries_save]
  | invalidate key =>
      simp only [perform, reply, invalidate]
      split
      · rw [entries_saveThen, entries_saveThen]
      · rfl
  | clear =>
      obtain ⟨hremovable, hfile⟩ := h rfl
      exact (entries_clear (by exact hfile)).trans (entries_clear hremovable).symm
  | clearStart start => simp only [perform, reply, clearStart, entries_saveThen]
  | stats => rfl
  | listing => rfl

/-- A failed operation leaves every key as it was exactly where it had nothing to change. -/
theorem find?_after_failure_iff (h : (perform now operation cache).1 = .error e) :
    (∀ key, Dict.find? key (perform now operation cache).2.entries
        = Dict.find? key cache.entries) ↔ operation.Idle now cache := by
  cases operation with
  | get key =>
      refine iff_of_false (fun hsame => ?_) id
      -- A read fails only where it drops an expired entry, and that entry is then gone.
      rcases get_cases now key cache with ⟨-, heq⟩ | ⟨entry, hfind, -, heq⟩ | ⟨_, -, -, heq⟩
      · rw [perform, reply, heq] at h
        cases h
      · have hgone := hsame key
        rw [perform, reply, heq, entries_saveThen, Dict.find?_erase, if_pos rfl, hfind] at hgone
        cases hgone
      · rw [perform, reply, heq] at h
        cases h
  | set key data ttl =>
      simp only [perform, reply, find?_set]
      constructor
      · intro hsame
        have hkey := hsame key
        rw [if_pos rfl] at hkey
        exact hkey.symm
      · intro hidle other
        split
        · next hkey => rw [← hkey, hidle]
        · rfl
  | invalidate key =>
      refine iff_of_false (fun hsame => ?_) id
      have hgone := hsame key
      rw [perform, reply, find?_invalidate, if_pos rfl] at hgone
      -- Where there is nothing to drop, nothing is written and nothing fails.
      rw [perform, reply, invalidate, Dict.has, ← hgone] at h
      cases h
  | clear =>
      show (∀ key, Dict.find? key cache.clear.2.entries = Dict.find? key cache.entries) ↔ _
      cases hremove : cache.file.removeFault? with
      | some fault =>
          refine iff_of_true (fun key => ?_) (Or.inl (by simp [hremove]))
          simp only [clear, hremove]
      | none =>
          -- The file is removed, and nothing is left in memory to be written.
          rw [entries_clear hremove]
          constructor
          · exact fun hsame => Or.inr fun key => (hsame key).symm
          · rintro (hrefused | hnone) key
            · exact absurd hremove hrefused
            · exact (hnone key).symm
  | clearStart start =>
      simp only [perform, reply, find?_clearStart]
      constructor
      · intro hsame key hstart
        have hkey := hsame key
        rw [if_pos hstart] at hkey
        exact hkey.symm
      · intro hidle key
        split
        · next hstart => exact (hidle key hstart).symm
        · rfl
  | stats => cases h
  | listing => cases h

/-- What a failed operation leaves. A `clear` that cannot remove the file leaves the cache as it
was. Otherwise the file could not be written: it is as a failed write leaves it, and the entries
are those that the operation would have left on a file that is free. So every key is as it was
exactly where the operation had nothing to change. -/
theorem entries_after_failure (h : (perform now operation cache).1 = .error e) :
    (operation = .clear → cache.file.removeFault? ≠ none →
      (perform now operation cache).2 = cache) ∧
    ((operation = .clear → cache.file.removeFault? = none) →
      cache.file.writeFault? ≠ none ∧
      (perform now operation cache).2.file = cache.file.spoil ∧
      (perform now operation cache).2.entries
        = (perform now operation { cache with file := .absent }).2.entries) ∧
    ((∀ key, Dict.find? key (perform now operation cache).2.entries
        = Dict.find? key cache.entries) ↔ operation.Idle now cache) := by
  refine ⟨?refused, fun hremovable => ?unwritten, find?_after_failure_iff h⟩
  case refused =>
    rintro rfl hrefused
    obtain ⟨fault, hfault⟩ := Option.ne_none_iff_exists'.mp hrefused
    simp only [perform, reply, clear, hfault]
  case unwritten =>
    obtain ⟨fault, -, ⟨hclear, hrefused, -⟩ | ⟨hfault, hspoil⟩⟩ := failure_cases h
    · cases (hremovable hclear).symm.trans hrefused
    · refine ⟨by simp [hfault], hspoil, ?_⟩
      exact (entries_perform_file fun hclear => ⟨hremovable hclear, rfl⟩).symm

/-- A cache with one entry and the given file. -/
def cacheOn (file : StoreFile) : Cache :=
  { entries := [("users", ⟨.bool true, 0, 1⟩)], file }

/-- The read of the expired entry cannot be written, and the entry is gone all the same. -/
theorem entries_after_failed_get :
    (perform 2000 (.get "users") (cacheOn .blocked)).1 = .error FileFault.isDirectory.error ∧
      (perform 2000 (.get "users") (cacheOn .blocked)).2.file = .blocked ∧
      (perform 2000 (.get "users") (cacheOn .blocked)).2.entries = [] := by
  have hfailed : (perform 2000 (.get "users") (cacheOn .blocked)).1
      = .error FileFault.isDirectory.error := rfl
  obtain ⟨-, hother, -⟩ := entries_after_failure hfailed
  obtain ⟨-, hfile, hentries⟩ := hother (by simp)
  exact ⟨hfailed, hfile, hentries.trans rfl⟩

/-- It is not so that an operation which cannot write leaves the entries alone. An entry that is
to be dropped is gone from memory, and a `clear` that finds the directory of its file gone has
dropped all. -/
theorem not_entries_kept_by_failure :
    (¬ ∀ (cache : Cache) (now : Int64) (operation : Operation) (e : CacheError),
      operation ≠ .clear → (perform now operation cache).1 = .error e →
        (perform now operation cache).2.entries = cache.entries) ∧
    (¬ ∀ (cache : Cache) (now : Int64) (e : CacheError),
      (perform now .clear cache).1 = .error e →
        (perform now .clear cache).2.entries = cache.entries) := by
  constructor
  · intro hkept
    have hentries := hkept (cacheOn .blocked) 0 (.invalidate "users") _ (by simp) rfl
    cases hentries
  · intro hkept
    have hentries := hkept (cacheOn .adrift) 0 _ rfl
    cases hentries

end DeclaredApi.Cache
