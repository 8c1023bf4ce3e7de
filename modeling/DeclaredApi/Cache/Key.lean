import DeclaredApi.Request.Basic
import DeclaredApi.Digest.Sha256
import DeclaredApi.Text.Blank

/-!
# `DeclaredApi.Cache.Key`: the keys of the response cache

A key is the name of the service, a dot, the name of the operation, a dot, and sixteen
hexadecimal digits of the digest of the request's identity. So the entries of a service, or
of one of its operations, are those whose keys start with its name and a dot.

The identity has service, operation, address, body and headers. The names of headers are
folded to small letters, of several spellings of one name the last in code point order
counts, and headers with secrets are left out, so new credentials find old entries.
-/

set_option autoImplicit false

namespace DeclaredApi.Cache

/-- The headers that have no part in an identity. -/
def secretHeaders : List String :=
  ["authorization", "x-api-key", "cookie"]

/-- The headers of an identity. -/
def identityHeaders (headers : Dict String) : Dict String :=
  Dict.ofList ((headers.map fun (name, value) => (Text.foldCase name, value)).filter
    fun header => ¬ secretHeaders.contains header.1)

/-- What tells one request from another. -/
def identity (service operation url : String) (headers : Dict String) (body : Option Json) :
    Json :=
  .ofMembers ([
    ("service", .string service),
    ("endpoint", .string operation),
    ("url", .string url),
    ("headers", .object ((identityHeaders headers).map fun (name, value) =>
      (name, .string value)))] ++ (body.map fun body => ("body", body)).toList)

/-- How many digits of the digest a key has. -/
def digestLength : Nat := 16

/-- The key under which a response is kept. -/
def key (service operation url : String) (headers : Dict String) (body : Option Json) : String :=
  let digest := Sha256.hexDigest (identity service operation url headers body).render
  service ++ "." ++ operation ++ "." ++ String.ofList (digest.take digestLength)

end DeclaredApi.Cache
