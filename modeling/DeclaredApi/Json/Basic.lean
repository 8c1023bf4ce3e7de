import DeclaredApi.Dict
import DeclaredApi.Json.Document

/-!
# `DeclaredApi.Json.Basic`: JSON values

A `Json` is the meaning of a document: objects are maps sorted by name, of several members
with one name the last counts, and every string and number has a value. `Document.value?`
gives the meaning of a document that opens at most `room` containers inside each other;
texts are read with 127 (`Json.ofText?`). `Json.document` goes back, and `Json.render`
writes the compact text. `Json.same` is the equality of values, in which `1` and `1.0`
differ and the two zeros of a double agree.
-/

set_option autoImplicit false

namespace DeclaredApi

open Json (Number Document)

/-- A JSON value. The members of an object are sorted by name (`Json.Ordered`). -/
inductive Json where
  | null
  | bool (value : Bool)
  | number (value : Number)
  | string (value : String)
  | array (items : List Json)
  | object (members : List (String × Json))
deriving Repr

namespace Json

/-! ### Documents and values -/

/-- How many containers may stand inside each other in a text. -/
def maxDepth : Nat := 127

mutual

/-- The value of a document that opens at most `room` containers inside each other. -/
def Document.value? (room : Nat) : Document → Option Json
  | .null => some .null
  | .bool b => some (.bool b)
  | .number n => n.map Json.number
  | .string s => s.map Json.string
  | .array items =>
    match room with
    | 0 => none
    | room + 1 => (itemValues? room items).map Json.array
  | .object members =>
    match room with
    | 0 => none
    | room + 1 => (memberValues? room members).map fun entries => .object (Dict.ofList entries)

/-- The values of the items of an array. -/
def itemValues? (room : Nat) : List Document → Option (List Json)
  | [] => some []
  | item :: rest => do
    let item ← item.value? room
    let rest ← itemValues? room rest
    return item :: rest

/-- The names and values of the members of an object, in the order of the text. -/
def memberValues? (room : Nat) : List (Option String × Document) → Option (List (String × Json))
  | [] => some []
  | (name, value) :: rest => do
    let name ← name
    let value ← value.value? room
    let rest ← memberValues? room rest
    return (name, value) :: rest

end

/-- The value of a JSON text. -/
def ofText? (s : String) : Option Json :=
  Document.read? s.toList >>= Document.value? maxDepth

mutual

/-- The document of a value. -/
def document : Json → Document
  | .null => .null
  | .bool b => .bool b
  | .number n => .number (some n)
  | .string s => .string (some s)
  | .array items => .array (itemDocuments items)
  | .object members => .object (memberDocuments members)

/-- The documents of the items of an array. -/
def itemDocuments : List Json → List Document
  | [] => []
  | item :: rest => item.document :: itemDocuments rest

/-- The members of the document of an object. -/
def memberDocuments : List (String × Json) → List (Option String × Document)
  | [] => []
  | (name, value) :: rest => (some name, value.document) :: memberDocuments rest

end

/-- The compact text of a value. -/
def render (j : Json) : String :=
  j.document.render

/-- The text of a value with one item or member a line. -/
def pretty (j : Json) : String :=
  j.document.pretty

/-! ### Sorted objects -/

mutual

/-- The members of every object in the value are sorted by name. -/
def Ordered : Json → Prop
  | .array items => OrderedItems items
  | .object members => Dict.Sorted members ∧ OrderedMembers members
  | _ => True

/-- Every item of an array is ordered. -/
def OrderedItems : List Json → Prop
  | [] => True
  | item :: rest => item.Ordered ∧ OrderedItems rest

/-- Every member of an object is ordered. -/
def OrderedMembers : List (String × Json) → Prop
  | [] => True
  | (_, value) :: rest => value.Ordered ∧ OrderedMembers rest

end

/-! ### Equality -/

mutual

/-- Equality of values: numbers are compared as numbers, all else piece by piece. -/
def same : Json → Json → Bool
  | .null, .null => true
  | .bool a, .bool b => a == b
  | .number a, .number b => a.same b
  | .string a, .string b => a == b
  | .array a, .array b => sameItems a b
  | .object a, .object b => sameMembers a b
  | _, _ => false

/-- Equality of the items of two arrays. -/
def sameItems : List Json → List Json → Bool
  | [], [] => true
  | a :: as, b :: bs => a.same b && sameItems as bs
  | _, _ => false

/-- Equality of the members of two objects. -/
def sameMembers : List (String × Json) → List (String × Json) → Bool
  | [], [] => true
  | (k, a) :: as, (l, b) :: bs => k == l && a.same b && sameMembers as bs
  | _, _ => false

end

/-! ### Small accessors -/

/-- A count. -/
def ofNat (n : Nat) : Json :=
  .number (.ofNat n)

/-- An array of strings. -/
def ofStrings (names : List String) : Json :=
  .array (names.map .string)

/-- An object with the given members, in any order. -/
def ofMembers (members : List (String × Json)) : Json :=
  .object (Dict.ofList members)

/-- A value, or null where there is none. -/
def ofOption (value : Option Json) : Json :=
  value.getD .null

/-- The member of an object under a name. -/
def member? (name : String) : Json → Option Json
  | .object members => Dict.find? name members
  | _ => none

/-- Whether a value is null. -/
def isNull : Json → Bool
  | .null => true
  | _ => false

/-- Whether a value is an array or an object. -/
def isContainer : Json → Bool
  | .array _ => true
  | .object _ => true
  | _ => false

end Json
end DeclaredApi
