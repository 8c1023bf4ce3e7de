import DeclaredApi.Arguments.Report
import DeclaredApi.Text.Percent

/-!
# `DeclaredApi.Arguments.Parts`: sorting arguments into the parts of a request

Every argument goes where its parameter says: into the path, the query, a header or the
body. An argument that is not declared goes into the query of a reading endpoint and into the
body otherwise, and a GraphQL operation sends all but headers as variables. Null arguments
are left out, except in a body. Values are percent encoded in the path and the query, so no
argument can add a separator.
-/

set_option autoImplicit false

namespace DeclaredApi

/-- The parts of a request that hold arguments. -/
structure RequestParts where
  /-- The path with its placeholders filled. -/
  path : String := ""
  query : List (String × String) := []
  headers : Dict String := []
  body : Option (Dict Json) := none

/-- A value as a text in an address or header. -/
def Json.plainText : Json → String
  | .string s => s
  | .null => ""
  | value => value.render

namespace RequestParts

/-- The query as a text, if there is any. -/
def queryString? (parts : RequestParts) : Option String :=
  if parts.query.isEmpty then none
  else some (String.intercalate "&" (parts.query.map fun (name, value) =>
    Text.percentEncode name ++ "=" ++ Text.percentEncode value))

/-- The pairs of the query that an argument gives: one for each item of a list. -/
def queryPairs (name : String) : Json → List (String × String)
  | .null => []
  | .array items => (items.filter (¬ ·.isNull)).map fun item => (name, item.plainText)
  | value => [(name, value.plainText)]

/-- The parts with an argument in its slot. Path arguments are already in the path. -/
def place (parts : RequestParts) (slot : Slot) (name : String) (value : Json) : RequestParts :=
  match slot with
  | .path => parts
  | .query => { parts with query := parts.query ++ queryPairs name value }
  | .header =>
    if value.isNull then parts
    else { parts with headers := Dict.insert name value.plainText parts.headers }
  | .body => { parts with body := some (Dict.insert name value (parts.body.getD [])) }

end RequestParts

namespace Template

/-- The path at the end of a template, where all that is left is literal, or the names of the
placeholders without a value. -/
def finish (path : String) (missing : List String) (rest : List Char) :
    Except (List String) String :=
  if missing.isEmpty then .ok (path ++ String.ofList rest) else .error missing

/-- Fills the rest of a template, after what the path has so far. -/
def fillFrom (arguments : Arguments) (path : String) (missing : List String)
    (rest : List Char) : Except (List String) String :=
  match hOpen : rest.idxOf? '{' with
  | none => finish path missing rest
  | some start =>
    let opened := rest.drop start
    match opened.idxOf? '}' with
    | none => finish path missing rest
    | some stop =>
      let path := path ++ String.ofList (rest.take start)
      let name := String.ofList (Text.trim ((opened.take stop).drop 1))
      have : (opened.drop (stop + 1)).length < rest.length :=
        length_drop_lt_of_idxOf? hOpen start stop
      match (Dict.find? name arguments).filter (¬ ·.isNull) with
      | some value =>
        fillFrom arguments (path ++ Text.percentEncode value.plainText) missing
          (opened.drop (stop + 1))
      | none => fillFrom arguments path (missing ++ [name]) (opened.drop (stop + 1))
termination_by rest.length

/-- The path with all placeholders filled, or the names of those that are not. -/
def fill (template : String) (arguments : Arguments) : Except (List String) String :=
  fillFrom arguments "" [] template.toList

end Template

/-- The slot for an argument of that name. -/
def Operation.slotFor (op : Operation Call) (expected : Expected) (name : String) : Slot :=
  match (expected.find? name).map (·.slot) with
  | some Slot.header => .header
  | declared =>
    if op.isGraphql then .body
    else declared.getD (if op.isRead then .query else .body)

namespace Arguments

/-- The report on placeholders without a value. -/
def unfilledReport (names : List String) : Report :=
  { errors := names.map .missing, missing := names }

/-- The arguments of a call, sorted into the parts of its request. -/
def parts (op : Operation Call) (expected : Expected) (arguments : Arguments) :
    Except Report RequestParts := do
  let path ←
    match op.template? with
    | some template => (Template.fill template arguments).mapError unfilledReport
    | none => .ok ""
  return arguments.foldl (fun parts (name, value) =>
    parts.place (op.slotFor expected name) name value) { path }

end Arguments
end DeclaredApi
