import DeclaredApi.Cache.Entry
import DeclaredApi.Request.Basic

/-!
# `DeclaredApi.Cache.Basic`: the response cache

A cache holds entries in memory and in a store file. Every operation that changes entries
writes the whole file, and fails when that cannot be done: a directory stands in the place of the
file, its own directory is gone, or there is no space. Reading, storing and dropping keys change
memory before they write, so after a failure memory is already changed. `clear` removes the
file, empties memory and writes a new file: it fails before it changes memory where the file
cannot be removed, and afterwards where it cannot be written. An expired entry is dropped when it is
read. Reads are counted as hits and misses, an expired entry as a miss.

Every operation takes the cache and answers with its result and the cache after it.
-/

set_option autoImplicit false

namespace DeclaredApi

/-- What stands in the place of a store file. -/
inductive StoreFile where
  | absent
  | text (content : String)
  /-- A directory. -/
  | blocked
  /-- A file in a directory that may not be changed: it can be written, but not removed. -/
  | pinned (content : String)
  /-- Nothing, and the directory for the file is gone too. -/
  | adrift
  /-- A file, or none, where no file can be written, as on a disk without space. What is there can
  be removed. A write fails with `fault` and leaves `left?`. -/
  | unwritable (fault : FileFault) (content? left? : Option String)
deriving DecidableEq, Repr

namespace StoreFile

/-! ### Reading, removing and writing -/

/-- The text of the file, if there is one, unless it cannot be read. -/
def read : StoreFile → Except FileFault (Option String)
  | .absent | .adrift => .ok none
  | .text content | .pinned content => .ok (some content)
  | .unwritable _ content? _ => .ok content?
  | .blocked => .error .isDirectory

/-- What a removal fails with, if it does. A file that is not there counts as removed. -/
def removeFault? : StoreFile → Option FileFault
  | .blocked => some .isDirectory
  | .pinned _ => some .denied
  | _ => none

/-- The place after a removal, which may fail. -/
def remove : StoreFile → StoreFile
  | .text _ => .absent
  | .unwritable fault _ left? => .unwritable fault none left?
  | file => file

/-- What a write fails with, if it does. -/
def writeFault? : StoreFile → Option FileFault
  | .blocked => some .isDirectory
  | .adrift => some .noDirectory
  | .unwritable fault _ _ => some fault
  | _ => none

/-- The place after a write that fails. -/
def spoil : StoreFile → StoreFile
  | .unwritable fault _ left? => .unwritable fault left? left?
  | file => file

/-- The place after a write, which may fail. -/
def overwrite (content : String) : StoreFile → StoreFile
  | .absent | .text _ => .text content
  | .pinned _ => .pinned content
  | file => file.spoil

/-- The place after its directory was made, where that was gone. -/
def withDirectory : StoreFile → StoreFile
  | .adrift => .absent
  | file => file

/-! ### What others may do -/

/-- Puts a directory in the place of the file. -/
def block : StoreFile → StoreFile
  | _ => .blocked

/-- Removes the directory in the place of the file. -/
def unblock : StoreFile → StoreFile
  | .blocked => .absent
  | file => file

end StoreFile

/-- A response cache. -/
structure Cache where
  entries : Cache.Entries := []
  file : StoreFile := .absent
  hits : Nat := 0
  misses : Nat := 0

namespace Cache

/-- Writes the entries to the file. -/
def save (cache : Cache) : Except CacheError Unit × Cache :=
  let after := { cache with file := cache.file.overwrite (storeText cache.entries) }
  match cache.file.writeFault? with
  | some fault => (.error fault.error, after)
  | none => (.ok (), after)

/-- Saves, and answers with `result` if that succeeds. -/
def saveThen {α : Type} (result : α) (cache : Cache) : Except CacheError α × Cache :=
  let (saved, cache) := cache.save
  (saved.map fun _ => result, cache)

/-- Opens a cache on a store file, which is made with its directory if it is absent. Where that
fails, the cache without entries tells what has become of the file. -/
def openFile (file : StoreFile) : Except CacheError Unit × Cache :=
  let file := file.withDirectory
  match file.read with
  | .error fault => (.error fault.error, { file })
  | .ok (some content) => (.ok (), { entries := entriesOfText content, file })
  | .ok none => save { file }

/-- The cache that is opened on a store file. -/
def ofFile (file : StoreFile) : Except CacheError Cache :=
  match openFile file with
  | (.ok (), cache) => .ok cache
  | (.error e, _) => .error e

/-- The data under `key`, unless it is expired. An expired entry is dropped. -/
def get (now : Int64) (key : String) (cache : Cache) : Except CacheError (Option Json) × Cache :=
  match Dict.find? key cache.entries with
  | none => (.ok none, { cache with misses := cache.misses + 1 })
  | some entry =>
    if entry.isExpired now then
      saveThen none
        { cache with misses := cache.misses + 1, entries := Dict.erase key cache.entries }
    else (.ok (some entry.data), { cache with hits := cache.hits + 1 })

/-- Stores data under `key` for `ttl` seconds. -/
def set (now : Int64) (key : String) (data : Json) (ttl : UInt64) (cache : Cache) :
    Except CacheError Unit × Cache :=
  save { cache with entries := Dict.insert key { data, timestamp := now, ttl } cache.entries }

/-- Drops the entry under `key`, and tells whether there was one. -/
def invalidate (key : String) (cache : Cache) : Except CacheError Bool × Cache :=
  if Dict.has key cache.entries then
    saveThen true { cache with entries := Dict.erase key cache.entries }
  else (.ok false, cache)

/-- Drops all entries, once the file is removed, and writes a file without entries. -/
def clear (cache : Cache) : Except CacheError Unit × Cache :=
  match cache.file.removeFault? with
  | some fault => (.error fault.error, cache)
  | none => save { cache with entries := [], file := cache.file.remove }

/-- Drops the entries whose keys start with `start`, and tells how many. -/
def clearStart (start : String) (cache : Cache) : Except CacheError Nat × Cache :=
  let kept := cache.entries.filter fun (key, _) => ¬ key.startsWith start
  saveThen (cache.entries.length - kept.length) { cache with entries := kept }

/-- How many entries are expired. -/
def expiredCount (now : Int64) (cache : Cache) : Nat :=
  (cache.entries.filter (·.2.isExpired now)).length

end Cache
end DeclaredApi
