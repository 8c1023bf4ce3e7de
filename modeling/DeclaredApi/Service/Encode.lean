import DeclaredApi.Service.Names

/-!
# `DeclaredApi.Service.Encode`: writing a declaration

The fields of a record are written in their order as the members of an object. Fields
without a value and empty lists and maps are left out, except `required` and `hidden`, which
are always written. Rename rules keep their order and repetitions, other maps are sorted.
-/

set_option autoImplicit false

namespace DeclaredApi

open Json (Document)

namespace Encode

/-- A field of a record; `none` when it is left out. -/
abbrev Field := Option (String × Document)

/-- The record of the fields that are written. -/
def record (fields : List Field) : Document :=
  .ofMembers (fields.filterMap id)

/-- A field that is always written. -/
def always (name : String) (value : Document) : Field :=
  some (name, value)

/-- A field that is written when it has a value. -/
def maybe {α : Type} (name : String) (encode : α → Document) (value : Option α) : Field :=
  value.map fun value => (name, encode value)

/-- A list that is written unless it is empty. -/
def unlessEmpty {α : Type} (name : String) (encode : α → Document) (items : List α) : Field :=
  if items.isEmpty then none else some (name, .array (items.map encode))

/-- A map that is written unless it is empty. -/
def unlessNoEntries (name : String) (entries : Dict Json) : Field :=
  if entries.isEmpty then none else some (name, Json.document (.object entries))

def number (n : UInt64) : Document :=
  .number (some (.ofUInt64 n))

def renameRules (rules : List RenameRule) : Document :=
  .ofMembers (rules.map fun rule => (rule.source, .ofString rule.target))

def transformStep (step : TransformStep) : Document :=
  record [
    maybe "fields" (fun fields => .array (fields.map .ofString)) step.fields,
    maybe "rename" renameRules step.rename]

def transformSpec : TransformSpec → Document
  | .chain steps => .array (steps.map transformStep)
  | .single step => transformStep step

def schema (s : Schema) : Document :=
  record [
    maybe "type" (fun kind => .ofString kind.text) s.kind,
    maybe "enum" (fun allowed => .array (allowed.map Json.document)) s.allowed]

def parameter (p : Parameter) : Document :=
  record [
    always "name" (.ofString p.name),
    always "type" (.ofString p.slot.text),
    always "required" (.bool p.required),
    maybe "schema" schema p.schema,
    maybe "description" .ofString p.description]

def credentials : Credentials → Document
  | .bearer token =>
    record [always "type" (.ofString "bearer"), always "token" (.ofString token)]
  | .apiKey header value =>
    record [always "type" (.ofString "apiKey"), always "header" (.ofString header),
      always "value" (.ofString value)]
  | .basic username password =>
    record [always "type" (.ofString "basic"), always "username" (.ofString username),
      always "password" (.ofString password)]

/-- An operation, with the fields of its call after its name. -/
def operation {κ : Type} (call : κ → List Field) (op : Operation κ) : Document :=
  record ([always "name" (.ofString op.name)] ++ call op.call ++ [
    maybe "description" .ofString op.description,
    unlessEmpty "parameters" parameter op.parameters,
    unlessNoEntries "defaultParams" op.defaults,
    maybe "cacheTTL" number op.cacheSeconds,
    maybe "transform" transformSpec op.transform])

def endpoint : Endpoint → Document :=
  operation fun call =>
    [always "method" (.ofString call.method.text), always "path" (.ofString call.path)]

def graphqlOperation : GraphqlOperation → Document :=
  operation fun call =>
    [always "type" (.ofString call.kind.text), always "query" (.ofString call.query)]

def aliasRecord (a : Alias) : Document :=
  record [
    always "name" (.ofString a.name),
    always "endpoint" (.ofString a.operation),
    unlessNoEntries "args" a.arguments,
    maybe "description" .ofString a.description,
    always "hidden" (.bool a.hidden)]

def service (s : Service) : Document :=
  record [
    always "serviceName" (.ofString s.name),
    always "baseUrl" (.ofString s.baseUrl),
    maybe "authentication" credentials s.credentials,
    unlessEmpty "endpoints" endpoint s.endpoints,
    unlessEmpty "graphqlOperations" graphqlOperation s.graphqlOperations,
    unlessEmpty "aliases" aliasRecord s.aliases]

end Encode
end DeclaredApi
