import DeclaredApi.Json.Basic

/-!
# `DeclaredApi.Json.Record`: reading typed values from documents

A `Decoder` reads a typed value from a document that may open a given number of containers
inside each other. `fields?` reads the fields of a record, which is written as an object or
as an array of its fields in their order. A record with a repeated field or with items
beyond its fields is refused. Members that are no field are passed over without a look: they
may be of any depth and hold anything.
-/

set_option autoImplicit false

namespace DeclaredApi.Json

/-- Reads a value from a document, given how many containers it may open. -/
abbrev Decoder (α : Type) := Nat → Document → Option α

namespace Decoder

variable {α : Type}

def string : Decoder String
  | _, .string s => s
  | _, _ => none

def bool : Decoder Bool
  | _, .bool b => some b
  | _, _ => none

/-- Any JSON value. -/
def value : Decoder Json := Document.value?

/-- An integer in 64 bits with sign. -/
def int64 : Decoder Int64
  | _, .number (some (.int n _)) => if n < 9223372036854775808 then some (Int64.ofInt n) else none
  | _, _ => none

/-- An integer in 64 bits without sign. -/
def uint64 : Decoder UInt64
  | _, .number (some (.int n _)) => if 0 ≤ n then some (UInt64.ofNat n.toNat) else none
  | _, _ => none

/-- A value, or null for none. -/
def nullable (decode : Decoder α) : Decoder (Option α)
  | _, .null => some none
  | room, d => (decode room d).map some

/-- An array of values. -/
def list (decode : Decoder α) : Decoder (List α)
  | room + 1, .array items => items.mapM (decode room)
  | _, _ => none

/-- An object as a map. -/
def map : Decoder (Dict Json)
  | room, .object members =>
    match Document.value? room (.object members) with
    | some (.object entries) => some entries
    | _ => none
  | _, _ => none

/-- One of several names. The name may also be the only member of an object, over null. -/
def named (names : List (String × α)) : Decoder α
  | _, .string (some name) => Dict.find? name names
  | _ + 1, .object [(some name, .null)] => Dict.find? name names
  | _, _ => none

end Decoder

/-- The fields found in a record, and how many containers their values may open. -/
structure Fields where
  room : Nat
  found : List (String × Document)

/-- The members of an object that have one of the names, unless a name repeats. -/
def knownMembers? (names : List String) :
    List (Option String × Document) → Option (List (String × Document))
  | [] => some []
  | (name, value) :: rest => do
    let name ← name
    let rest ← knownMembers? names rest
    if ¬ names.contains name then return rest
    else if Dict.has name rest then none
    else return (name, value) :: rest

/-- The fields of a record, by the names of its fields in their order. -/
def fields? (names : List String) : Nat → Document → Option Fields
  | room + 1, .object members => (knownMembers? names members).map (Fields.mk room)
  | room + 1, .array items =>
    if items.length ≤ names.length then some ⟨room, names.zip items⟩ else none
  | _, _ => none

namespace Fields

variable {α : Type}

/-- The value of a field that must be there. -/
def need? (fields : Fields) (name : String) (decode : Decoder α) : Option α :=
  Dict.find? name fields.found >>= decode fields.room

/-- The value of a field, or `otherwise` when it is absent. -/
def orElse? (fields : Fields) (name : String) (otherwise : α) (decode : Decoder α) : Option α :=
  match Dict.find? name fields.found with
  | none => some otherwise
  | some d => decode fields.room d

/-- The value of a field that may be absent or null. -/
def maybe? (fields : Fields) (name : String) (decode : Decoder α) : Option (Option α) :=
  fields.orElse? name none decode.nullable

end Fields
end DeclaredApi.Json
