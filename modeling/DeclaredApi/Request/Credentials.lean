import DeclaredApi.Request.Basic
import DeclaredApi.Text.Base64

/-!
# `DeclaredApi.Request.Credentials`: adding credentials to a request

Credentials are one header: `Authorization` for a bearer token or a user name with password,
the declared header for an API key. The header replaces one of exactly that name.
-/

set_option autoImplicit false

namespace DeclaredApi

/-- Adds what shows who is calling to a request for a service. -/
abbrev Authenticator := Service → Request → Request

/-- The header that carries the credentials. -/
def Credentials.header : Credentials → String × String
  | .bearer token => ("Authorization", "Bearer " ++ token)
  | .apiKey header value => (header, value)
  | .basic username password =>
    ("Authorization", "Basic " ++ Text.base64Encode (username ++ ":" ++ password))

namespace Authenticator

/-- Leaves requests as they are. -/
def anonymous : Authenticator :=
  fun _ request => request

/-- Adds the credentials that the service declares. -/
def declared : Authenticator :=
  fun service request =>
    match service.credentials with
    | none => request
    | some credentials =>
      let (name, value) := credentials.header
      { request with headers := Dict.insert name value request.headers }

end Authenticator
end DeclaredApi
