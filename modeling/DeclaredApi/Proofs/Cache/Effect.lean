import DeclaredApi.Cache.Basic
import DeclaredApi.Proofs.Dict

/-!
# `DeclaredApi.Proofs.Cache.Effect`: what the operations of a cache do

Every operation that changes entries changes them in memory and then saves. `save` never
touches the entries, whether it succeeds or not, so what an operation does to the entries can
be said without a look at the file (`find?_set`, `find?_invalidate`, `find?_clearStart`).
Whether it succeeds depends on the file alone: `save` fails with the fault of a write, if there is
one (`save_of_fault`), and otherwise it leaves a file that is read as the text of all entries
(`read_of_save_ok`). A file that can be removed and written (`StoreFile.IsFree`) stays so.

`get_cases` lists the three things a read can do. Later proofs open `get` with it.
-/

set_option autoImplicit false

namespace DeclaredApi

namespace StoreFile

variable {file : StoreFile} {content : String}

/-- The file can be removed and written. -/
structure IsFree (file : StoreFile) : Prop where
  removable : file.removeFault? = none
  writable : file.writeFault? = none

/-- A file that is not there can be written and removed. -/
theorem isFree_absent : IsFree .absent :=
  ⟨rfl, rfl⟩

/-- So can a file that is there. -/
theorem isFree_text (content : String) : IsFree (.text content) :=
  ⟨rfl, rfl⟩

/-- A write that succeeds leaves its text. -/
theorem read_overwrite (h : file.writeFault? = none) (content : String) :
    (file.overwrite content).read = .ok (some content) := by
  cases file with
  | absent | text | pinned => rfl
  | blocked | adrift | unwritable => cases h

/-- What a write that fails leaves does not depend on its text, nor on whether the file was removed
before. -/
theorem overwrite_of_fault {fault : FileFault} (h : file.writeFault? = some fault)
    (content : String) :
    file.overwrite content = file.spoil ∧ file.remove.overwrite content = file.spoil := by
  cases file with
  | absent | text | pinned => cases h
  | blocked | adrift | unwritable => exact ⟨rfl, rfl⟩

/-- A free file is plain after a write. -/
theorem IsFree.overwrite_eq (h : file.IsFree) (content : String) :
    file.overwrite content = .text content := by
  obtain ⟨hremove, hwrite⟩ := h
  cases file with
  | absent | text => rfl
  | blocked | pinned => cases hremove
  | adrift | unwritable => cases hwrite

/-- A free file is gone after a removal, and a new one can be written. -/
theorem IsFree.remove_eq (h : file.IsFree) : file.remove = .absent := by
  obtain ⟨hremove, hwrite⟩ := h
  cases file with
  | absent | text => rfl
  | blocked | pinned => cases hremove
  | adrift | unwritable => cases hwrite

/-- Whether a write fails does not depend on whether the file was removed before. -/
theorem writeFault?_remove (file : StoreFile) : file.remove.writeFault? = file.writeFault? := by
  cases file <;> rfl

end StoreFile

namespace Cache

variable {α : Type}

/-! ### Saving -/

/-- Saving leaves the entries alone, also when it fails. -/
@[simp] theorem entries_save (cache : Cache) : cache.save.2.entries = cache.entries := by
  unfold save
  split <;> rfl

/-- Saving leaves the entries alone, whether it succeeds or not. -/
@[simp] theorem entries_saveThen (result : α) (cache : Cache) :
    (saveThen result cache).2.entries = cache.entries :=
  entries_save cache

/-- Saving counts nothing. -/
@[simp] theorem hits_save (cache : Cache) : cache.save.2.hits = cache.hits := by
  unfold save
  split <;> rfl

/-- Saving is no read, so it counts no miss. -/
@[simp] theorem misses_save (cache : Cache) : cache.save.2.misses = cache.misses := by
  unfold save
  split <;> rfl

/-- Saving is no read, so it counts no hit. -/
@[simp] theorem hits_saveThen (result : α) (cache : Cache) :
    (saveThen result cache).2.hits = cache.hits :=
  hits_save cache

/-- Saving is no read, so it counts no miss, whatever is answered. -/
@[simp] theorem misses_saveThen (result : α) (cache : Cache) :
    (saveThen result cache).2.misses = cache.misses :=
  misses_save cache

/-- After a save the file is what a write makes of it, also when that fails. -/
theorem file_save (cache : Cache) :
    cache.save.2.file = cache.file.overwrite (storeText cache.entries) := by
  unfold save
  split <;> rfl

/-- The file is what the write leaves. -/
theorem file_saveThen (result : α) (cache : Cache) :
    (saveThen result cache).2.file = cache.file.overwrite (storeText cache.entries) :=
  file_save cache

/-- Where the file can be written, saving leaves the text of all entries there. -/
theorem save_of_writable {cache : Cache} (h : cache.file.writeFault? = none) :
    cache.save
      = (.ok (), { cache with file := cache.file.overwrite (storeText cache.entries) }) := by
  simp only [save, h]

/-- Where the file can be written, the answer is given and the file holds the entries. -/
theorem saveThen_of_writable {cache : Cache} (h : cache.file.writeFault? = none) (result : α) :
    saveThen result cache
      = (.ok result, { cache with file := cache.file.overwrite (storeText cache.entries) }) := by
  simp only [saveThen, save_of_writable h]
  rfl

/-- Where the file cannot be written, saving fails with what the write fails with. -/
theorem save_of_fault {cache : Cache} {fault : FileFault}
    (h : cache.file.writeFault? = some fault) : cache.save.1 = .error fault.error := by
  simp only [save, h]

/-- Where it cannot, the fault of the write is the answer. -/
theorem saveThen_of_fault {cache : Cache} {fault : FileFault}
    (h : cache.file.writeFault? = some fault) (result : α) :
    (saveThen result cache).1 = .error fault.error := by
  simp only [saveThen, save_of_fault h]
  rfl

/-- A save that succeeds has left the text of all entries in the file. -/
theorem read_of_save_ok {cache : Cache} {answer : Unit} (h : cache.save.1 = .ok answer) :
    cache.save.2.file.read = .ok (some (storeText cache.save.2.entries)) := by
  cases hfault : cache.file.writeFault? with
  | none => rw [file_save, entries_save, StoreFile.read_overwrite hfault]
  | some fault =>
      rw [save_of_fault hfault] at h
      cases h

/-- After a success the text of the file is that of the entries in memory. -/
theorem read_of_saveThen_ok {cache : Cache} {result answer : α}
    (h : (saveThen result cache).1 = .ok answer) :
    (saveThen result cache).2.file.read
      = .ok (some (storeText (saveThen result cache).2.entries)) := by
  cases hsave : cache.save.1 with
  | ok u => exact read_of_save_ok hsave
  | error e =>
      simp only [saveThen, hsave] at h
      cases h

/-- A save that succeeds answers with the result it was given. -/
theorem eq_of_saveThen_ok {cache : Cache} {result answer : α}
    (h : (saveThen result cache).1 = .ok answer) : answer = result := by
  unfold saveThen at h
  generalize cache.save = saved at h
  obtain ⟨_ | _, after⟩ := saved
  · cases h
  · cases h
    rfl

/-! ### Reading -/

/-- A read finds nothing, drops an expired entry or finds an entry that is not expired. -/
theorem get_cases (now : Int64) (key : String) (cache : Cache) :
    (Dict.find? key cache.entries = none ∧
      cache.get now key = (.ok none, { cache with misses := cache.misses + 1 })) ∨
    (∃ entry, Dict.find? key cache.entries = some entry ∧ entry.isExpired now = true ∧
      cache.get now key = saveThen none
        { cache with misses := cache.misses + 1, entries := Dict.erase key cache.entries }) ∨
    (∃ entry, Dict.find? key cache.entries = some entry ∧ entry.isExpired now = false ∧
      cache.get now key = (.ok (some entry.data), { cache with hits := cache.hits + 1 })) := by
  unfold get
  cases hfind : Dict.find? key cache.entries with
  | none => exact Or.inl ⟨rfl, rfl⟩
  | some entry =>
      cases hexp : entry.isExpired now with
      | true => exact Or.inr (Or.inl ⟨entry, rfl, hexp, by simp [hexp]⟩)
      | false => exact Or.inr (Or.inr ⟨entry, rfl, hexp, by simp [hexp]⟩)

/-- An entry that is not expired is found. -/
theorem get_of_unexpired {now : Int64} {key : String} {cache : Cache} {entry : Entry}
    (hfind : Dict.find? key cache.entries = some entry) (hfresh : entry.isExpired now = false) :
    (cache.get now key).1 = .ok (some entry.data) := by
  simp [get, hfind, hfresh]

/-! ### Changing entries -/

/-- A `set` changes its own key only, even if it fails. -/
theorem find?_set (now : Int64) (key other : String) (data : Json) (ttl : UInt64)
    (cache : Cache) :
    Dict.find? other (cache.set now key data ttl).2.entries
      = if key = other then some { data, timestamp := now, ttl }
        else Dict.find? other cache.entries := by
  rw [set, entries_save]
  exact Dict.find?_insert key other _ cache.entries

/-- An `invalidate` drops its own key only, even if it fails. -/
theorem find?_invalidate (key other : String) (cache : Cache) :
    Dict.find? other (cache.invalidate key).2.entries
      = if key = other then none else Dict.find? other cache.entries := by
  unfold invalidate
  split
  · rw [entries_saveThen]
    exact Dict.find?_erase key other cache.entries
  · next hhas =>
      -- Nothing is dropped, and there is nothing under the key to begin with.
      have hnone : Dict.find? key cache.entries = none := by simpa [Dict.has] using hhas
      split
      · next hkey => subst hkey; exact hnone
      · rfl

/-- A `clearStart` drops the keys with that start only, even if it fails. -/
theorem find?_clearStart (start key : String) (cache : Cache) :
    Dict.find? key (cache.clearStart start).2.entries
      = if key.startsWith start then none else Dict.find? key cache.entries := by
  have hfilter := Dict.find?_filter (fun name => !name.startsWith start) key cache.entries
  simp only [clearStart, entries_saveThen, decide_not, Bool.decide_eq_true]
  rw [hfilter]
  cases key.startsWith start <;> rfl

/-- A file that is free to be removed and written is cleared. -/
theorem clear_of_isFree {cache : Cache} (h : cache.file.IsFree) :
    cache.clear = (.ok (), { cache with entries := [], file := .text (storeText []) }) := by
  simp only [clear, h.removable, h.remove_eq]
  rfl

/-! ### A free file stays free -/

/-- A free file stays free when it is written. -/
theorem isFree_save {cache : Cache} (h : cache.file.IsFree) : cache.save.2.file.IsFree := by
  rw [file_save, h.overwrite_eq]
  exact StoreFile.isFree_text _

/-- A free file stays free when it is written, whatever is answered. -/
theorem isFree_saveThen {cache : Cache} (h : cache.file.IsFree) (result : α) :
    (saveThen result cache).2.file.IsFree :=
  isFree_save h

/-- A `get` keeps the file free. -/
theorem isFree_get {cache : Cache} (h : cache.file.IsFree) (now : Int64) (key : String) :
    (cache.get now key).2.file.IsFree := by
  rcases get_cases now key cache with ⟨-, heq⟩ | ⟨_, -, -, heq⟩ | ⟨_, -, -, heq⟩
  · rw [heq]; exact h
  · rw [heq]; exact isFree_saveThen (by exact h) _
  · rw [heq]; exact h

/-- A `set` keeps the file free. -/
theorem isFree_set {cache : Cache} (h : cache.file.IsFree) (now : Int64) (key : String)
    (data : Json) (ttl : UInt64) : (cache.set now key data ttl).2.file.IsFree :=
  isFree_save h

/-- An `invalidate` keeps the file free. -/
theorem isFree_invalidate {cache : Cache} (h : cache.file.IsFree) (key : String) :
    (cache.invalidate key).2.file.IsFree := by
  unfold invalidate
  split
  · exact isFree_saveThen (by exact h) _
  · exact h

/-- A `clearStart` keeps the file free. -/
theorem isFree_clearStart {cache : Cache} (h : cache.file.IsFree) (start : String) :
    (cache.clearStart start).2.file.IsFree :=
  isFree_saveThen (by exact h) _

end Cache
end DeclaredApi
