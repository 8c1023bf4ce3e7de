import DeclaredApi.Service.Names
import DeclaredApi.Template

/-!
# `DeclaredApi.Arguments.Expected`: the parameters of an operation

The parameters of an operation are the placeholders of its path and the parameters it
declares. A placeholder is a required path parameter whatever is declared for it, and a
declaration that says otherwise gives a finding; it adds a schema only. Of several
declarations of one name the last counts.
-/

set_option autoImplicit false

namespace DeclaredApi

/-! ### Findings -/

/-- Something noticed about the parameters of an operation or the arguments of a call. -/
inductive Finding where
  /-- A placeholder is declared as optional or for another slot. -/
  | staysPath (operation name : String)
  | missing (name : String)
  | unknown (name : String)
  | wrongKind (name : String) (expected : ValueKind) (value : Json)
  | notAllowed (name : String) (allowed : List Json) (value : Json)

/-- The word for the kind of a value. -/
def Json.kindText : Json → String
  | .null => "null"
  | .bool _ => "boolean"
  | .number (.int _ _) => "integer"
  | .number (.float _) => "number"
  | .string _ => "string"
  | .array _ => "array"
  | .object _ => "object"

/-- The text of a finding. -/
def Finding.message : Finding → String
  | .staysPath operation name =>
    "operation '" ++ operation ++ "': parameter '" ++ name ++
      "' comes from the path template and stays a required path parameter"
  | .missing name => "missing required parameter '" ++ name ++ "'"
  | .unknown name => "unknown parameter '" ++ name ++ "'"
  | .wrongKind name expected value =>
    "parameter '" ++ name ++ "' expected " ++ expected.text ++ ", got " ++ value.kindText
  | .notAllowed name allowed value =>
    "parameter '" ++ name ++ "' must be one of [" ++
      String.intercalate ", " (allowed.map Json.render) ++ "], got " ++ value.render

/-! ### Parameters by name -/

/-- What is expected of an argument. -/
structure Expectation where
  slot : Slot
  required : Bool
  schema : Option Schema

/-- The parameters of an operation by name, with what was noticed about them. -/
structure Expected where
  entries : Dict Expectation := []
  findings : List Finding := []

namespace Expected

/-- What is expected of a placeholder without a declaration. -/
def placeholder : Expectation := ⟨.path, true, none⟩

/-- The parameters with one more declaration, for a path with the given placeholders. -/
def declare (operation : String) (placeholders : List String) (expected : Expected)
    (p : Parameter) : Expected :=
  if placeholders.contains p.name then
    { entries := Dict.insert p.name { placeholder with schema := p.schema } expected.entries
      findings :=
        if p.slot = .path ∧ p.required then expected.findings
        else expected.findings ++ [.staysPath operation p.name] }
  else
    { expected with
      entries := Dict.insert p.name ⟨p.slot, p.required, p.schema⟩ expected.entries }

/-- The parameters of an operation. -/
def ofOperation (op : Operation Call) : Expected :=
  let placeholders := (op.template?.map Template.placeholders).getD []
  op.parameters.foldl (declare op.name placeholders)
    { entries := Dict.ofList (placeholders.map fun name => (name, placeholder)) }

/-- What is expected of the argument of that name. -/
def find? (expected : Expected) (name : String) : Option Expectation :=
  Dict.find? name expected.entries

/-- The names of the required parameters, in order. -/
def required (expected : Expected) : List String :=
  Dict.keys (expected.entries.filter (·.2.required))

end Expected
end DeclaredApi
