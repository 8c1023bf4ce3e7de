import DeclaredApi.Http.Header
import DeclaredApi.Http.Target
import DeclaredApi.Request.Basic
import DeclaredApi.Text.Utf8

/-!
# `DeclaredApi.Http.Exchange`: requests and replies of HTTP

A request is sent with its headers under small letters, the name of the client unless a
header gives one, and a content type if it has a body and no header gives one. A reply is
read back into a response: the body is null if it is blank, else its JSON value, and else
its text.
-/

set_option autoImplicit false

namespace DeclaredApi.Http

/-- What is sent to a server. -/
structure Message where
  method : Method
  target : String
  /-- The headers in order. -/
  headers : List Header
  body : String

/-- What a server sends back. -/
structure Reply where
  status : Nat
  headers : List Header := []
  bytes : List UInt8 := []

/-- A reply as it is handed on. -/
structure Received where
  response : Response
  headers : Dict String

/-- The message for a request to a target, with the name of the client. -/
def message (userAgent : String) (request : Request) : Except ExchangeError Message := do
  if ¬ isHeaderValue userAgent then throw (.build "the client has no valid name")
  let some target := target? request.url.toList | throw (.transport "no valid address")
  if ¬ request.headers.all Header.isSendable then throw (.transport "no valid header")
  let headers := request.headers.map Header.arriving
  let headers :=
    if request.body.isSome then withDefault ("content-type", "application/json") headers
    else headers
  let headers := withDefault (Header.arriving ("user-agent", userAgent)) headers
  return { method := request.method, target
           headers := headers.mergeSort Header.isAtMost
           body := (request.body.map Json.render).getD "" }

/-- The value of a body. -/
def bodyValue (text : String) : Json :=
  if Text.isBlankString text then .null else (Json.ofText? text).getD (.string text)

/-- Whether a reply to the method has a body at all. -/
def Reply.hasBody (reply : Reply) (method : Method) : Bool :=
  method ≠ .head && reply.status ≠ 204 && reply.status ≠ 304

/-- What a client makes of a reply. Of several headers of one name the last one counts. -/
def Reply.received (reply : Reply) (method : Method) : Received :=
  let headers := (reply.headers.map Header.arriving).filter (isReadable ·.2)
  let bytes := if reply.hasBody method then reply.bytes else []
  { response := { status := reply.status, body := bodyValue (Text.decodeUtf8 bytes) }
    headers := Dict.ofList headers }

end DeclaredApi.Http
