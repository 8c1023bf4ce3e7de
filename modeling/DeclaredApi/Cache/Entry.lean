import DeclaredApi.Json.Record

/-!
# `DeclaredApi.Cache.Entry`: cached responses and their store file

An entry is a body with the time it was stored and the seconds it may be served. Times are
in milliseconds, 64-bit numbers with sign, and all arithmetic on them stops at the ends of
that range. An entry is expired when more time has passed than it may be served.

The store file holds all entries as one JSON object. A text that is no such object counts
as a file without entries (`entriesOfText`).
-/

set_option autoImplicit false

namespace DeclaredApi.Cache

open Json (Document Decoder fields?)

/-- A cached response. -/
structure Entry where
  data : Json
  /-- When it was stored, in milliseconds. -/
  timestamp : Int64
  /-- How many seconds it may be served. -/
  ttl : UInt64

/-- The greatest and the least time. -/
def greatestTime : Int := 9223372036854775807
def leastTime : Int := -9223372036854775808

/-- An integer, stopped at the ends of the range of times. -/
def clampTime (t : Int) : Int :=
  max leastTime (min greatestTime t)

/-- Whether an entry stored at `timestamp` for `ttl` seconds is expired at `now`. -/
def isExpiredAt (timestamp : Int64) (ttl : UInt64) (now : Int64) : Bool :=
  let allowed := min (ttl.toNat * 1000) 18446744073709551615
  clampTime allowed < clampTime (now.toInt - timestamp.toInt)

/-- Whether the entry is expired at `now`. -/
def Entry.isExpired (entry : Entry) (now : Int64) : Bool :=
  isExpiredAt entry.timestamp entry.ttl now

/-- The JSON value of an entry. -/
def Entry.json (entry : Entry) : Json :=
  .object [("data", entry.data), ("timestamp", .number (.ofInt64 entry.timestamp)),
    ("ttl", .number (.ofUInt64 entry.ttl))]

/-- Reads an entry. -/
def decodeEntry : Decoder Entry := fun room d => do
  let record ← fields? ["data", "timestamp", "ttl"] room d
  let data ← record.need? "data" Decoder.value
  let timestamp ← record.need? "timestamp" Decoder.int64
  let ttl ← record.need? "ttl" Decoder.uint64
  return { data, timestamp, ttl }

/-- The entries of a cache, by key. -/
abbrev Entries := Dict Entry

/-- Reads entries. -/
def decodeEntries : Decoder Entries
  | room + 1, .object members => do
    let members ← members.mapM fun (key, d) => do
      return (← key, ← decodeEntry room d)
    return Dict.ofList members
  | _, _ => none

/-- The text of the store file. -/
def storeText (entries : Entries) : String :=
  (Json.object (entries.map fun (key, entry) => (key, entry.json))).render

/-- The entries that a store file with this text holds. -/
def entriesOfText (text : String) : Entries :=
  ((Document.read? text.toList >>= decodeEntries Json.maxDepth)).getD []

end DeclaredApi.Cache
