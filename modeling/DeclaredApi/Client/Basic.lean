import DeclaredApi.Cache.Basic
import DeclaredApi.Cache.Key
import DeclaredApi.Request.Prepare
import DeclaredApi.Transform.Pipeline

/-!
# `DeclaredApi.Client.Basic`: calling an operation

A client sends prepared requests to a server and keeps responses in a cache. The server is
the list of the answers it will give, and the requests sent so far are kept. A call of a
reading operation with a positive time to live is answered from the cache if it can be; else
the request is sent, and the body of a successful answer is stored before it is reshaped.
What is stored is the body as it came, so a changed transform applies to cached responses.

Time goes on while the server answers. So a call reads the clock twice (`CallTimes`): what it
looks up is judged by the first time, and what it stores has the second one.
-/

set_option autoImplicit false

namespace DeclaredApi

/-- One answer of a server. -/
abbrev Answer := Except ExchangeError Response

/-- A server, as the answers it will give, and the requests it was sent. -/
structure Server where
  answers : List Answer := []
  /-- The requests so far, the latest first. -/
  requests : List Request := []

/-- The next answer. A server without answers does not respond. -/
def Server.exchange (server : Server) (request : Request) : Answer × Server :=
  let requests := request :: server.requests
  match server.answers with
  | [] => (.error (.transport "no response queued"), { server with requests })
  | answer :: answers => (answer, { answers, requests })

/-- A client, with counts of its calls and of the transform steps that failed. -/
structure Client where
  server : Server
  cache : Option Cache := none
  calls : Nat := 0
  transformFailures : Nat := 0

/-- How a call is made. -/
structure CallOptions where
  /-- Unknown arguments are errors. -/
  strict : Bool := false
  /-- The cache is neither read nor written. -/
  noCache : Bool := false
deriving DecidableEq, Repr

/-- The times that the clock has for a call: when it looks its response up in the cache, and when
it stores what the server answered. -/
structure CallTimes where
  asked : Int64
  stored : Int64
deriving DecidableEq, Repr

/-- A call in which no time passes. -/
instance : Coe Int64 CallTimes :=
  ⟨fun now => { asked := now, stored := now }⟩

/-- A successful call. -/
structure Outcome where
  operation : String
  status : Nat
  /-- Whether the data comes from the cache. -/
  cached : Bool
  data : Json

/-- The errors that the answer to a GraphQL operation lists. -/
def Operation.graphqlErrors? (op : Operation Call) (body : Json) : Option Json :=
  if op.isGraphql then
    match body.member? "errors" with
    | some (.array (e :: rest)) => some (.array (e :: rest))
    | _ => none
  else none

/-- How many seconds responses of the operation are kept, if they are kept at all. -/
def Operation.keepSeconds? (op : Operation Call) : Option UInt64 :=
  op.cacheSeconds.filter fun seconds => 0 < seconds && op.isRead

/-- The key of a prepared request. -/
def Prepared.key (prepared : Prepared) (service : Service) : String :=
  Cache.key service.name prepared.operation.name prepared.request.url prepared.request.headers
    prepared.request.body

namespace Client

/-- The outcome of a call from its body, reshaped, with the failed steps counted. -/
def deliver (client : Client) (op : Operation Call) (status : Nat) (cached : Bool) (body : Json) :
    Except CallError Outcome × Client :=
  let reshaped := pipeline op.steps body
  (.ok { operation := op.name, status, cached, data := reshaped.value },
    { client with transformFailures := client.transformFailures + reshaped.failures })

/-- Sends a request. The body of an answer with success and without GraphQL errors is the
result. -/
def send (client : Client) (prepared : Prepared) : Except CallError Response × Client :=
  let (answer, server) := client.server.exchange prepared.request
  let client := { client with server }
  match answer with
  | .error e => (.error (.exchange e), client)
  | .ok response =>
    if ¬ response.isSuccess then (.error (.status response), client)
    else
      match prepared.operation.graphqlErrors? response.body with
      | some errors => (.error (.graphql errors), client)
      | none => (.ok response, client)

/-- Sends a request and delivers its answer. -/
def callUncached (client : Client) (prepared : Prepared) : Except CallError Outcome × Client :=
  match client.send prepared with
  | (.error e, client) => (.error e, client)
  | (.ok response, client) =>
    client.deliver prepared.operation response.status false response.body

/-- Answers from the cache, or sends the request and stores the body under `key`. -/
def callCached (client : Client) (cache : Cache) (prepared : Prepared) (key : String)
    (ttl : UInt64) (times : CallTimes) : Except CallError Outcome × Client :=
  match cache.get times.asked key with
  | (.error e, cache) => (.error (.cache e), { client with cache := some cache })
  | (.ok (some body), cache) =>
    { client with cache := some cache }.deliver prepared.operation 200 true body
  | (.ok none, cache) =>
    match { client with cache := some cache }.send prepared with
    | (.error e, client) => (.error e, client)
    | (.ok response, client) =>
      match cache.set times.stored key response.body ttl with
      | (.error e, cache) => (.error (.cache e), { client with cache := some cache })
      | (.ok (), cache) =>
        { client with cache := some cache }.deliver prepared.operation response.status false
          response.body

/-- The cache that a call of the operation uses, with the seconds its response is kept. -/
def cacheFor? (client : Client) (op : Operation Call) (options : CallOptions) :
    Option (Cache × UInt64) :=
  if options.noCache then none
  else do
    let ttl ← op.keepSeconds?
    let cache ← client.cache
    return (cache, ttl)

/-- Calls `name` with arguments. -/
def call (client : Client) (authenticate : Authenticator) (service : Service) (times : CallTimes)
    (options : CallOptions) (name : String) (arguments : Arguments) :
    Except CallError Outcome × Client :=
  let client := { client with calls := client.calls + 1 }
  match service.prepare authenticate name arguments options.strict with
  | .error e => (.error e, client)
  | .ok prepared =>
    match client.cacheFor? prepared.operation options with
    | none => client.callUncached prepared
    | some (cache, ttl) => client.callCached cache prepared (prepared.key service) ttl times

end Client
end DeclaredApi
