import DeclaredApi.Json.Record
import DeclaredApi.Service.Names

/-!
# `DeclaredApi.Service.Decode`: reading a declaration

A declaration is a JSON text. Its records may be objects or arrays of their fields, optional
fields may be absent and, where the type allows, null, and fields it does not know are
passed over. Credentials and transforms are the exception: they take different shapes, so
everything inside them must be readable, known or not (`readable?`).
-/

set_option autoImplicit false

namespace DeclaredApi

open Json (Document Decoder fields?)

namespace Decode

/-- The document, if every string and number in it has a value and it is not too deep. -/
def readable? (room : Nat) (d : Document) : Option Document :=
  (Document.value? room d).map fun _ => d

/-! ### Transforms -/

/-- Rename rules, in the order of the text, repetitions included. -/
def renameRules : Decoder (List RenameRule)
  | room + 1, .object members => members.mapM fun (source, target) => do
    let source ← source
    let target ← Decoder.string room target
    return { source, target }
  | _, _ => none

/-- One step of a transform. -/
def transformStep : Decoder TransformStep := fun room d => do
  let record ← fields? ["fields", "rename"] room d
  let fields ← record.maybe? "fields" (Decoder.list Decoder.string)
  let rename ← record.maybe? "rename" renameRules
  return { fields, rename }

/-- A transform is a chain of steps if it can be read as one, and else a step. -/
def transformSpec : Decoder TransformSpec := fun room d => do
  let d ← readable? room d
  (Decoder.list transformStep room d).map .chain <|> (transformStep room d).map .single

/-! ### Parameters and credentials -/

def schema : Decoder Schema := fun room d => do
  let record ← fields? ["type", "enum"] room d
  let kind ← record.maybe? "type" (Decoder.named ValueKind.names)
  let allowed ← record.maybe? "enum" (Decoder.list Decoder.value)
  return { kind, allowed }

def parameter : Decoder Parameter := fun room d => do
  let record ← fields? ["name", "type", "required", "schema", "description"] room d
  let name ← record.need? "name" Decoder.string
  let slot ← record.need? "type" (Decoder.named Slot.names)
  let required ← record.orElse? "required" false Decoder.bool
  let schema ← record.maybe? "schema" schema
  let description ← record.maybe? "description" Decoder.string
  return { name, slot, required, schema, description }

/-- The header of an API key that names none. -/
def defaultKeyHeader : String := "X-API-Key"

/-- The credentials of the given kind. -/
def credentialsOf (kind : String) : Decoder Credentials := fun room d => do
  match kind with
  | "bearer" =>
    let record ← fields? ["token"] room d
    let token ← record.need? "token" Decoder.string
    return .bearer token
  | "apiKey" =>
    let record ← fields? ["header", "value"] room d
    let header ← record.orElse? "header" defaultKeyHeader Decoder.string
    let value ← record.need? "value" Decoder.string
    return .apiKey header value
  | "basic" =>
    let record ← fields? ["username", "password"] room d
    let username ← record.need? "username" Decoder.string
    let password ← record.need? "password" Decoder.string
    return .basic username password
  | _ => none

/-- Credentials name their kind under `type`, or in the first place of an array. -/
def credentials : Decoder Credentials := fun room d => do
  match ← readable? room d with
  | .array (kind :: items) => credentialsOf (← Decoder.string room kind) room (.array items)
  | d =>
    let kind ← (← fields? ["type"] room d).need? "type" Decoder.string
    credentialsOf kind room d

/-! ### Operations, aliases and services -/

/-- An operation whose call is written in two fields after its name. -/
def operation {κ : Type} (first second : String)
    (call : Json.Fields → Option κ) : Decoder (Operation κ) := fun room d => do
  let record ← fields? ["name", first, second, "description", "parameters", "defaultParams",
    "cacheTTL", "transform"] room d
  let name ← record.need? "name" Decoder.string
  let call ← call record
  let description ← record.maybe? "description" Decoder.string
  let parameters ← record.orElse? "parameters" [] (Decoder.list parameter)
  let defaults ← record.orElse? "defaultParams" [] Decoder.map
  let cacheSeconds ← record.maybe? "cacheTTL" Decoder.uint64
  let transform ← record.maybe? "transform" transformSpec
  return { name, call, description, parameters, defaults, cacheSeconds, transform }

def endpoint : Decoder Endpoint :=
  operation "method" "path" fun record => do
    let method ← record.need? "method" (Decoder.named Method.names)
    let path ← record.need? "path" Decoder.string
    return { method, path }

def graphqlOperation : Decoder GraphqlOperation :=
  operation "type" "query" fun record => do
    let kind ← record.need? "type" (Decoder.named GraphqlKind.names)
    let query ← record.need? "query" Decoder.string
    return { kind, query }

def aliasRecord : Decoder Alias := fun room d => do
  let record ← fields? ["name", "endpoint", "args", "description", "hidden"] room d
  let name ← record.need? "name" Decoder.string
  let operation ← record.need? "endpoint" Decoder.string
  let arguments ← record.orElse? "args" [] Decoder.map
  let description ← record.maybe? "description" Decoder.string
  let hidden ← record.orElse? "hidden" false Decoder.bool
  return { name, operation, arguments, description, hidden }

def service : Decoder Service := fun room d => do
  let record ← fields? ["serviceName", "baseUrl", "authentication", "endpoints",
    "graphqlOperations", "aliases"] room d
  let name ← record.need? "serviceName" Decoder.string
  let baseUrl ← record.need? "baseUrl" Decoder.string
  let credentials ← record.maybe? "authentication" credentials
  let endpoints ← record.orElse? "endpoints" [] (Decoder.list endpoint)
  let graphqlOperations ← record.orElse? "graphqlOperations" [] (Decoder.list graphqlOperation)
  let aliases ← record.orElse? "aliases" [] (Decoder.list aliasRecord)
  return { name, baseUrl, credentials, endpoints, graphqlOperations, aliases }

end Decode

/-- The value of type `α` that a JSON text stands for. -/
def Json.Decoder.ofText? {α : Type} (decode : Decoder α) (text : String) : Option α :=
  Document.read? text.toList >>= decode Json.maxDepth

end DeclaredApi
