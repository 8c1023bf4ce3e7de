/-!
# `DeclaredApi.Toml.Value`: TOML values and how tables grow

A TOML document is one table that grows line by line. A table may be opened once by a header
and may be made by a header of a table inside it or by a dotted key, but what one kind of
line made, another may not change as it likes. So a table remembers its `Origin`, and
`grow?` goes down a path of keys with the rules for headers or for dotted keys.
-/

set_option autoImplicit false

namespace DeclaredApi.Toml

/-- What made a table. -/
inductive Origin where
  /-- Its own header, or the start of the document. -/
  | header
  /-- The header of a table inside it. -/
  | implied
  /-- A dotted key. -/
  | dotted
  /-- Braces. Such a table is complete. -/
  | braces
deriving DecidableEq, Repr

/-- A TOML value. Floats and dates are kept as their text. -/
inductive Value where
  | string (text : String)
  | integer (value : Int)
  | float (text : List Char)
  | bool (value : Bool)
  | date (text : List Char)
  | array (items : List Value)
  | table (origin : Origin) (entries : List (String × Value))
  /-- The tables that headers in double brackets made, in order. -/
  | tables (elements : List (List (String × Value)))
deriving Repr

/-- The entries of a table. -/
abbrev Entries := List (String × Value)

/-- The entries with `value` under `key`, at the place of the key or at the end. -/
def put (key : String) (value : Value) : Entries → Entries
  | [] => [(key, value)]
  | (k, v) :: rest => if k = key then (key, value) :: rest else (k, v) :: put key value rest

/-- The table at the end of a path, changed by `f`. Tables that are missing on the way are
made by what `making` says. A header goes through every table and into the last of several;
a dotted key goes only through tables that no header of their own opened. -/
def grow? (making : Origin) (f : Origin → Entries → Option Entries) :
    List String → Origin → Entries → Option Entries
  | [], origin, entries => f origin entries
  | key :: path, _, entries =>
    match entries.lookup key with
    | none => do
      let made ← grow? making f path making []
      return put key (.table making made) entries
    | some (.table origin inner) =>
      if origin = .braces ∨ (making = .dotted ∧ origin = .header) then none
      else do
        let inner ← grow? making f path origin inner
        return put key (.table origin inner) entries
    | some (.tables elements) =>
      match elements.reverse with
      | [] => none
      | last :: before => do
        let last ← grow? making f path .header last
        return put key (.tables (last :: before).reverse) entries
    | some _ => none

/-- Puts a new key into a table. A dotted key must end in a table that dotted keys made, and
a plain key may not. -/
def putNew (isDotted : Bool) (key : String) (value : Value) (origin : Origin)
    (entries : Entries) : Option Entries :=
  if (origin = .dotted) ≠ isDotted ∨ (entries.lookup key).isSome then none
  else some (put key value entries)

/-- The entries with `value` under a dotted key, given as its path and its last part. -/
def assign? (path : List String) (key : String) (value : Value) (origin : Origin)
    (entries : Entries) : Option Entries :=
  grow? .dotted (putNew (¬ path.isEmpty) key value) path origin entries

/-- Opens a table by its header. A table that other headers only implied becomes its own. -/
def openTable (key : String) (_ : Origin) (entries : Entries) : Option Entries :=
  match entries.lookup key with
  | none => some (put key (.table .header []) entries)
  | some (.table .implied inner) => some (put key (.table .header inner) entries)
  | some _ => none

/-- Adds a table by a header in double brackets. -/
def addTable (key : String) (_ : Origin) (entries : Entries) : Option Entries :=
  match entries.lookup key with
  | none => some (put key (.tables [[]]) entries)
  | some (.tables elements) => some (put key (.tables (elements ++ [[]])) entries)
  | some _ => none

end DeclaredApi.Toml
