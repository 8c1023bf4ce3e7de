import DeclaredApi.Transform.Basic

/-!
# `DeclaredApi.Service.Basic`: the declaration of a service

A service has a base address, credentials, operations and aliases. An operation is an HTTP
endpoint or a GraphQL operation; what they share is in `Operation`, whose parameter is what
they call. An alias is an operation with preset arguments under a name of its own.
-/

set_option autoImplicit false

namespace DeclaredApi

/-! ### Parameters -/

/-- The part of a request that carries a parameter. -/
inductive Slot where
  | path
  | query
  | body
  | header
deriving DecidableEq, Repr

/-- The kinds of JSON values that a declaration may ask for. -/
inductive ValueKind where
  | string
  | number
  | integer
  | boolean
  | array
  | object
deriving DecidableEq, Repr

/-- What the value of a parameter must be. -/
structure Schema where
  kind : Option ValueKind := none
  /-- The allowed values. -/
  allowed : Option (List Json) := none

/-- A declared parameter. -/
structure Parameter where
  name : String
  slot : Slot
  required : Bool := false
  schema : Option Schema := none
  description : Option String := none

/-! ### Operations -/

/-- The HTTP methods. -/
inductive Method where
  | get
  | post
  | put
  | patch
  | delete
  | head
  | options
deriving DecidableEq, Repr

/-- The kinds of GraphQL operations. -/
inductive GraphqlKind where
  | query
  | mutation
deriving DecidableEq, Repr

/-- What an HTTP endpoint calls: a method on a path with placeholders. -/
structure RestCall where
  method : Method
  path : String
deriving DecidableEq, Repr

/-- What a GraphQL operation calls. -/
structure GraphqlCall where
  kind : GraphqlKind
  query : String
deriving DecidableEq, Repr

/-- What an operation calls. -/
inductive Call where
  | rest (call : RestCall)
  | graphql (call : GraphqlCall)
deriving DecidableEq, Repr

/-- A named operation that calls a `κ`. -/
structure Operation (κ : Type) where
  name : String
  call : κ
  description : Option String := none
  parameters : List Parameter := []
  /-- Arguments that count where the caller gives none. -/
  defaults : Dict Json := []
  /-- How many seconds a response may be served from the cache. -/
  cacheSeconds : Option UInt64 := none
  transform : Option TransformSpec := none

abbrev Endpoint := Operation RestCall
abbrev GraphqlOperation := Operation GraphqlCall

/-- The operation with another way to say what it calls. -/
def Operation.mapCall {κ μ : Type} (f : κ → μ) (op : Operation κ) : Operation μ :=
  { op with call := f op.call }

namespace Operation

variable (op : Operation Call)

/-- Whether the operation only reads. Only such operations may be cached. -/
def isRead : Bool :=
  match op.call with
  | .rest call => call.method = .get || call.method = .head
  | .graphql call => call.kind = .query

def isGraphql : Bool :=
  match op.call with
  | .rest _ => false
  | .graphql _ => true

/-- The path of an endpoint, with its placeholders. -/
def template? : Option String :=
  match op.call with
  | .rest call => some call.path
  | .graphql _ => none

/-- The steps of the operation's transform. -/
def steps : List TransformStep :=
  (op.transform.map TransformSpec.steps).getD []

end Operation

/-! ### Services -/

/-- The credentials of a service. -/
inductive Credentials where
  | bearer (token : String)
  | apiKey (header value : String)
  | basic (username password : String)
deriving DecidableEq, Repr

/-- A name for an operation with preset arguments. -/
structure Alias where
  name : String
  /-- The name of the operation. -/
  operation : String
  arguments : Dict Json := []
  description : Option String := none
  /-- A hidden alias works, but no help text names it. -/
  hidden : Bool := false

/-- The declaration of a service. -/
structure Service where
  name : String
  baseUrl : String
  credentials : Option Credentials := none
  endpoints : List Endpoint := []
  graphqlOperations : List GraphqlOperation := []
  aliases : List Alias := []

namespace Service

variable (service : Service)

def isGraphql : Bool :=
  ¬ service.graphqlOperations.isEmpty

/-- All operations, in the order of their declarations. -/
def operations : List (Operation Call) :=
  service.endpoints.map (Operation.mapCall .rest) ++
    service.graphqlOperations.map (Operation.mapCall .graphql)

def operationNames : List String :=
  service.operations.map (·.name)

/-- The names of the aliases that are not hidden. -/
def visibleAliasNames : List String :=
  (service.aliases.filter (¬ ·.hidden)).map (·.name)

/-- The first operation of that name. -/
def operation? (name : String) : Option (Operation Call) :=
  service.operations.find? (·.name = name)

/-- The first alias of that name. -/
def alias? (name : String) : Option Alias :=
  service.aliases.find? (·.name = name)

end Service

/-- What a name of a service stands for. -/
inductive Target where
  | ofAlias (a : Alias)
  | ofOperation (op : Operation Call)

/-- What `name` stands for; an alias goes before an operation. -/
def Service.lookup? (service : Service) (name : String) : Option Target :=
  match service.alias? name with
  | some a => some (.ofAlias a)
  | none => (service.operation? name).map .ofOperation

end DeclaredApi
