import DeclaredApi.Transform.Basic

/-!
# `DeclaredApi.Transform.Extract`: keeping the listed fields

The fields of an object are read one after the other and put at the same paths of a new
object; fields that lead nowhere are left out. A field with a wildcard lands at the path
before its first marker, as the list of the values it collects. Over an array every element
is reduced on its own, and when all fields start with a marker they lose it, for it stands
for that very level.
-/

set_option autoImplicit false

namespace DeclaredApi.Json

/-- The fields as they apply to the elements of an array. -/
def elementFields (fields : List (List Char)) : List (List Char) :=
  (fields.mapM Path.stripWildcard?).getD fields

/-- The path a field lands at. A field that starts with a marker has none in an object. -/
def landing? (field : List Char) : Option (List Char) :=
  match Path.splitWildcard? field with
  | some ([], _) => none
  | some (head, _) => some head
  | none => some field

/-- The reduced object with one more field of `data`. -/
def extractField (data result : Json) (field : List Char) : Except TransformError Json :=
  match data.get? field, landing? field with
  | some value, some path => result.placed path value
  | _, _ => .ok result

mutual

/-- The value reduced to the listed fields. -/
def extract (fields : List (List Char)) : Json → Except TransformError Json
  | .array items => (extractItems (elementFields fields) items).map .array
  | .object members => fields.foldlM (extractField (.object members)) (.object [])
  | other => .ok other

/-- Every element reduced to the listed fields. -/
def extractItems (fields : List (List Char)) : List Json → Except TransformError (List Json)
  | [] => .ok []
  | item :: rest => do
    let item ← extract fields item
    let rest ← extractItems fields rest
    return item :: rest

end

end DeclaredApi.Json
