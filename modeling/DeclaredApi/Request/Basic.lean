import DeclaredApi.Arguments.Parts

/-!
# `DeclaredApi.Request.Basic`: requests, responses and failed calls

A `Request` is what an operation sends, a `Response` what comes back. `CallError` lists why
a call may fail: the name means nothing, the arguments are not valid, the exchange with the
server fails or answers with an error, or the cache cannot be written.
-/

set_option autoImplicit false

namespace DeclaredApi

/-- A request, before it is sent. -/
structure Request where
  method : Method
  url : String
  headers : Dict String := []
  body : Option Json := none

/-- A response, with its body decoded. -/
structure Response where
  status : Nat
  body : Json

/-- Whether the server did what was asked. -/
def Response.isSuccess (response : Response) : Bool :=
  200 ≤ response.status && response.status < 300

/-- Why there is no response. -/
inductive ExchangeError where
  /-- The request cannot be formed. -/
  | build (reason : String)
  /-- The request was not answered. -/
  | transport (reason : String)
deriving DecidableEq, Repr

/-- Why the store file of a cache cannot be read, removed or written. -/
inductive FileFault where
  /-- A directory stands in its place. -/
  | isDirectory
  /-- The directory for it is gone. -/
  | noDirectory
  /-- It may not be changed. -/
  | denied
  /-- There is no space for it. -/
  | noSpace
deriving DecidableEq, Repr

/-- Why an operation of a cache fails. -/
inductive CacheError where
  /-- The store file stands in the way. -/
  | blocked {fault : FileFault}
deriving DecidableEq, Repr

/-- The error of an operation that meets the fault. -/
def FileFault.error (fault : FileFault) : CacheError :=
  @CacheError.blocked fault

/-- Why a call fails. -/
inductive CallError where
  /-- The name is neither an alias nor an operation. The lists are for the help text. -/
  | unknownName (name service : String) (aliases operations : List String)
  /-- The alias names no operation. -/
  | danglingAlias (name service target : String) (operations : List String)
  /-- The arguments are not valid. The required names are for the help text. -/
  | invalidArguments (report : Report) (required : Option (List String))
  | cache (e : CacheError)
  | exchange (e : ExchangeError)
  /-- The server answers with a status other than success. -/
  | status (response : Response)
  /-- The answer to a GraphQL operation lists errors. -/
  | graphql (errors : Json)

def ExchangeError.message : ExchangeError → String
  | .build reason => "request build error: " ++ reason
  | .transport reason => "transport error: " ++ reason

/-- What the system says about a fault. -/
def FileFault.message : FileFault → String
  | .isDirectory => "Is a directory (os error 21)"
  | .noDirectory => "No such file or directory (os error 2)"
  | .denied => "Permission denied (os error 13)"
  | .noSpace => "No space left on device (os error 28)"

def CacheError.message : CacheError → String
  | @CacheError.blocked fault => "cache io error: " ++ fault.message

namespace CallError

/-- A list of names. -/
def nameList (names : List String) : String :=
  String.intercalate ", " names

/-- The message of a failed call. -/
def message : CallError → String
  | .unknownName name service _ _ =>
    "configuration error: '" ++ name ++ "' is not an alias or operation of service '" ++
      service ++ "'"
  | .danglingAlias a service target _ =>
    "configuration error: alias '" ++ a ++ "' in service '" ++ service ++
      "' references unknown operation '" ++ target ++ "'"
  | .invalidArguments report _ =>
    "invalid arguments: " ++ String.intercalate "; " (report.errors.map Finding.message)
  | .cache e => e.message
  | .exchange e => e.message
  | .status response => "upstream returned HTTP " ++ toString response.status
  | .graphql errors => "graphql errors: " ++ errors.render

/-- What may help the caller. -/
def help? : CallError → Option String
  | .unknownName _ _ [] operations => some ("available operations: " ++ nameList operations)
  | .unknownName _ _ aliases operations =>
    some ("available aliases: " ++ nameList aliases ++ "; available operations: " ++
      nameList operations)
  | .danglingAlias _ _ _ operations => some ("available operations: " ++ nameList operations)
  | .invalidArguments _ required =>
    required.map fun names => "required parameters: " ++ nameList names
  | _ => none

end CallError
end DeclaredApi
