import DeclaredApi.Request.Credentials

/-!
# `DeclaredApi.Request.Prepare`: from a name and arguments to a request

A name is resolved to an operation, with the preset arguments of an alias below the caller's
and the defaults of the operation below both. The arguments are checked and sorted into the
parts of a request, the address is put together, and credentials are added. A GraphQL
operation is a POST of its query and its variables to the base address.
-/

set_option autoImplicit false

namespace DeclaredApi

/-- What a name and arguments mean for a service. -/
structure Resolution where
  operation : Operation Call
  alias? : Option Alias
  arguments : Arguments

namespace Service

variable (service : Service)

/-- The operation that `name` stands for, with its arguments. -/
def resolve (name : String) (arguments : Arguments) : Except CallError Resolution :=
  match service.lookup? name with
  | some (.ofAlias a) =>
    match service.operation? a.operation with
    | some operation =>
      .ok ⟨operation, some a, Arguments.merge a.arguments arguments⟩
    | none =>
      .error (.danglingAlias a.name service.name a.operation service.operationNames)
  | some (.ofOperation operation) => .ok ⟨operation, none, arguments⟩
  | none =>
    .error (.unknownName name service.name service.visibleAliasNames service.operationNames)

/-- The address of an endpoint: the base address without slashes at its end, the path and
the query. -/
def address (parts : RequestParts) : String :=
  let base := service.baseUrl.toList.reverse.dropWhile (· == '/')
  String.ofList base.reverse ++ parts.path ++
    match parts.queryString? with
    | some query => "?" ++ query
    | none => ""

/-- The request of an operation with its arguments in their parts. -/
def request (operation : Operation Call) (parts : RequestParts) : Request :=
  match operation.call with
  | .rest call =>
    { method := call.method
      url := service.address parts
      headers := parts.headers
      body := parts.body.map Json.object }
  | .graphql call =>
    { method := .post
      url := service.baseUrl
      headers := parts.headers
      body := some (.ofMembers
        [("query", .string call.query), ("variables", .object (parts.body.getD []))]) }

end Service

/-- The request with a content type, if it has a body and names none. -/
def Request.withContentType (request : Request) : Request :=
  if request.body.isSome ∧ ¬ Dict.has "Content-Type" request.headers then
    { request with headers := Dict.insert "Content-Type" "application/json" request.headers }
  else request

/-- Refuses arguments that are not valid. The help names the required parameters when one
of them is missing. -/
def Arguments.require (expected : Expected) (arguments : Arguments) (strict : Bool) :
    Except CallError Unit :=
  let report := arguments.check expected { strict }
  if report.valid then .ok ()
  else .error (.invalidArguments report
    (if report.missing.isEmpty then none else some expected.required))

/-- A request that is ready to be sent, with its operation. -/
structure Prepared where
  operation : Operation Call
  request : Request

/-- The request for calling `name` with arguments. -/
def Service.prepare (service : Service) (authenticate : Authenticator) (name : String)
    (arguments : Arguments) (strict : Bool) : Except CallError Prepared := do
  let resolution ← service.resolve name arguments
  let operation := resolution.operation
  let arguments := Arguments.merge operation.defaults resolution.arguments
  let expected := Expected.ofOperation operation
  arguments.require expected strict
  let parts ← (arguments.parts operation expected).mapError fun report =>
    .invalidArguments report none
  let request := (service.request operation parts).withContentType
  return { operation, request := authenticate service request }

end DeclaredApi
