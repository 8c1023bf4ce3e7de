import DeclaredApi.Service.Decode
import DeclaredApi.Text.Blank

/-!
# `DeclaredApi.Service.Check`: which declarations are accepted

A service must have a name and an HTTP address, operations of one kind only, and names that
mean one thing each: no two operations and no two aliases share a name, no alias has the
name of an operation, and every alias names an operation. `Service.check` goes through these
rules in order and answers with the first that is broken.
-/

set_option autoImplicit false

namespace DeclaredApi

/-- Why a declaration is not accepted. -/
inductive ServiceFault where
  /-- The text is no declaration. -/
  | unreadable
  | blankServiceName
  | notHttp
  | noOperations
  | bothKinds
  | blankOperationName
  /-- The path of the endpoint does not start with a slash. -/
  | relativePath (operation : String)
  /-- The operation writes, and yet its responses are to be cached. -/
  | cachedWrite (operation : String)
  | duplicateOperation (name : String)
  | duplicateAlias (name : String)
  /-- The alias has the name of an operation. -/
  | aliasCollision (name : String)
  | unknownTarget (name target : String)
deriving DecidableEq, Repr

/-- The message of a declaration that is not accepted; an unreadable one has none of its
own. -/
def ServiceFault.message? : ServiceFault → Option String
  | .unreadable => none
  | .blankServiceName => some "validation error: serviceName must not be empty"
  | .notHttp => some "validation error: baseUrl must start with http(s)"
  | .noOperations =>
    some "validation error: service must declare endpoints or graphqlOperations"
  | .bothKinds =>
    some "validation error: service cannot declare both endpoints and graphqlOperations"
  | .blankOperationName => some "validation error: operation name must not be empty"
  | .relativePath name =>
    some ("validation error: endpoint '" ++ name ++ "': path must start with '/'")
  | .cachedWrite name =>
    some ("validation error: operation '" ++ name ++
      "': cacheTTL is only valid for read operations")
  | .duplicateOperation name => some ("duplicate operation name '" ++ name ++ "'")
  | .duplicateAlias name => some ("duplicate alias name '" ++ name ++ "'")
  | .aliasCollision name =>
    some ("alias '" ++ name ++ "' collides with an operation of the same name")
  | .unknownTarget name target =>
    some ("alias '" ++ name ++ "' references unknown operation '" ++ target ++ "'")

/-- Refuses with `fault` where `broken` holds. -/
def refuseIf (broken : Bool) (fault : ServiceFault) : Except ServiceFault Unit :=
  if broken then .error fault else .ok ()

/-- The first rule that an operation breaks by itself. -/
def Operation.check (op : Operation Call) : Except ServiceFault Unit := do
  refuseIf (Text.isBlankString op.name) .blankOperationName
  refuseIf (op.template?.any (¬ ·.startsWith "/")) (.relativePath op.name)
  refuseIf (op.cacheSeconds.isSome && ¬ op.isRead) (.cachedWrite op.name)

namespace Service

/-- Goes through the operations after those that have the names `seen`. -/
def checkOperations (seen : List String) : List (Operation Call) → Except ServiceFault Unit
  | [] => .ok ()
  | op :: rest => do
    op.check
    refuseIf (seen.contains op.name) (.duplicateOperation op.name)
    checkOperations (op.name :: seen) rest

/-- Goes through the aliases after those that have the names `seen`. -/
def checkAliases (operations seen : List String) : List Alias → Except ServiceFault Unit
  | [] => .ok ()
  | a :: rest => do
    refuseIf (seen.contains a.name) (.duplicateAlias a.name)
    refuseIf (operations.contains a.name) (.aliasCollision a.name)
    refuseIf (¬ operations.contains a.operation) (.unknownTarget a.name a.operation)
    checkAliases operations (a.name :: seen) rest

/-- The first rule that a service breaks. -/
def check (service : Service) : Except ServiceFault Unit := do
  refuseIf (Text.isBlankString service.name) .blankServiceName
  refuseIf (¬ service.baseUrl.startsWith "http://" && ¬ service.baseUrl.startsWith "https://")
    .notHttp
  refuseIf (service.endpoints.isEmpty && service.graphqlOperations.isEmpty) .noOperations
  refuseIf (¬ service.endpoints.isEmpty && ¬ service.graphqlOperations.isEmpty) .bothKinds
  checkOperations [] service.operations
  checkAliases service.operationNames [] service.aliases

/-- The service that a text declares, without a look at the rules. -/
def read (text : String) : Except ServiceFault Service :=
  match Json.Decoder.ofText? Decode.service text with
  | some service => .ok service
  | none => .error .unreadable

/-- The service that a text declares, if it keeps the rules. -/
def load (text : String) : Except ServiceFault Service := do
  let service ← read text
  service.check
  return service

end Service
end DeclaredApi
