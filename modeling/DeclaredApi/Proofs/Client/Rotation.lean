import DeclaredApi.Proofs.Client.Served

/-!
# `DeclaredApi.Proofs.Client.Rotation`: new secrets and the keys of the cache

Credentials are rotated when their secrets change and nothing else does
(`Credentials.Rotated`, `Service.Rotated`). A key should survive that, or the entries stored
before are lost. The identity of a request leaves out three headers, so everything hangs on the
header that carries the credentials. It is `Hidden` if its name is one of the three in any
spelling.

* `key_eq_of_rotated`: hidden credentials never change a key. A request even has the key that it
  has without credentials. A bearer token is always hidden, and so are a user name and password,
  which are in the same header (`hidden_authorization`).
* `not_key_eq_of_rotated`: an API key in any other header is part of the identity. There are two
  accepted services that differ in the value of an API key only, and a call that has different
  keys in them.
-/

set_option autoImplicit false

namespace DeclaredApi

open Cache (identityHeaders secretHeaders)

/-! ### Headers that are left out -/

/-- An entry that a filter drops may be inserted before it. -/
theorem Dict.filter_insert {α : Type} (keep : String → Bool) {key : String}
    (h : keep key = false) (value : α) (m : Dict α) :
    (Dict.insert key value m).filter (fun entry => keep entry.1)
      = m.filter fun entry => keep entry.1 := by
  induction m with
  | nil => simp [Dict.insert, h]
  | cons entry rest ih =>
      obtain ⟨k, v⟩ := entry
      simp only [Dict.insert]
      split
      · next hk =>
          -- The entry that is overwritten would have been dropped too.
          subst hk
          simp [h]
      · split
        · simp [List.filter_cons, h]
        · simp only [List.filter_cons, ih]

/-- A header that is left out of identities does not change them. -/
theorem Cache.identityHeaders_insert {name : String} (h : Text.foldCase name ∈ secretHeaders)
    (value : String) (headers : Dict String) :
    identityHeaders (Dict.insert name value headers) = identityHeaders headers := by
  have hfilter := Dict.filter_insert (fun name => ¬ secretHeaders.contains (Text.foldCase name))
    (by simpa using h) value headers
  simp only [identityHeaders, List.filter_map]
  exact congrArg (fun kept : Dict String => Dict.ofList (kept.map fun header =>
    (Text.foldCase header.1, header.2))) hfilter

/-- A header that is left out of identities does not change the key. -/
theorem Cache.key_insert {name : String} (h : Text.foldCase name ∈ secretHeaders)
    (service operation url value : String) (headers : Dict String) (body : Option Json) :
    Cache.key service operation url (Dict.insert name value headers) body
      = Cache.key service operation url headers body := by
  have hidentity : Cache.identity service operation url (Dict.insert name value headers) body
      = Cache.identity service operation url headers body := by
    unfold Cache.identity
    rw [Cache.identityHeaders_insert h]
  unfold Cache.key
  rw [hidentity]

/-! ### Rotation -/

namespace Credentials

/-- The same kind of credentials in the same header, maybe with other secrets. -/
inductive Rotated : Credentials → Credentials → Prop where
  | bearer (token token' : String) : Rotated (.bearer token) (.bearer token')
  | apiKey (header value value' : String) : Rotated (.apiKey header value) (.apiKey header value')
  | basic (username username' password password' : String) :
    Rotated (.basic username password) (.basic username' password')

/-- The header of the credentials is left out of identities. -/
def Hidden (credentials : Credentials) : Prop :=
  Text.foldCase credentials.header.1 ∈ secretHeaders

variable {credentials credentials' : Credentials}

/-- Rotation keeps the name of the header. -/
theorem Rotated.header_eq (h : Rotated credentials credentials') :
    credentials.header.1 = credentials'.header.1 := by
  cases h <;> rfl

/-- What is hidden before a rotation is hidden after it. -/
theorem Rotated.hidden (h : Rotated credentials credentials') (hhidden : credentials.Hidden) :
    credentials'.Hidden := by
  rw [Hidden, ← h.header_eq]
  exact hhidden

/-- The header of bearer tokens, user names and passwords is left out of identities. -/
theorem hidden_authorization : Text.foldCase "Authorization" ∈ secretHeaders := by
  have hfold : Text.foldCase "Authorization" = "authorization" := by
    rw [Text.foldCase_eq_iff]
    decide
  simp [hfold, secretHeaders]

/-- A bearer token is in a header that is left out. -/
theorem hidden_bearer (token : String) : (bearer token).Hidden :=
  hidden_authorization

end Credentials

namespace Service

/-- The services are one but for the secrets of their credentials. -/
structure Rotated (service service' : Service) : Prop where
  rest : { service with credentials := service'.credentials } = service'
  credentials : Option.Rel Credentials.Rotated service.credentials service'.credentials

variable {service service' : Service}

/-- Credentials come last: a request is prepared without them, and then they are added. -/
theorem prepare_eq_map (authenticate : Authenticator) (name : String) (arguments : Arguments)
    (strict : Bool) :
    service.prepare authenticate name arguments strict
      = (service.prepare .anonymous name arguments strict).map fun prepared =>
          { prepared with request := authenticate service prepared.request } := by
  simp only [prepare, bind, Except.bind]
  -- Each of the three parts can fail, and a failure is the same on both sides.
  cases service.resolve name arguments with
  | error e => rfl
  | ok resolution =>
      dsimp only
      cases Arguments.require (.ofOperation resolution.operation)
        (Arguments.merge resolution.operation.defaults resolution.arguments) strict with
      | error e => rfl
      | ok =>
          dsimp only
          cases Arguments.parts resolution.operation (.ofOperation resolution.operation)
            (Arguments.merge resolution.operation.defaults resolution.arguments) with
          | error report => rfl
          | ok parts => rfl

/-- Hidden credentials leave the key of a request as it is without them. -/
theorem key_declared (hhidden : ∀ c ∈ service.credentials, c.Hidden) (prepared : Prepared) :
    ({ prepared with request := Authenticator.declared service prepared.request } : Prepared).key
        service = prepared.key service := by
  unfold Prepared.key Authenticator.declared
  cases hcredentials : service.credentials with
  | none => rfl
  | some credentials => exact Cache.key_insert (hhidden credentials hcredentials) _ _ _ _ _ _

/-- Without an authenticator the credentials do not count. -/
theorem prepare_withCredentials (credentials : Option Credentials) (name : String)
    (arguments : Arguments) (strict : Bool) :
    { service with credentials }.prepare .anonymous name arguments strict
      = service.prepare .anonymous name arguments strict := by
  have hresolve : { service with credentials }.resolve name arguments
      = service.resolve name arguments := rfl
  have hrequest : ∀ op parts, { service with credentials }.request op parts
      = service.request op parts := fun _ _ => rfl
  simp only [prepare, Authenticator.anonymous, hresolve, hrequest]

/-- Credentials that are hidden are hidden after a rotation too. -/
theorem Rotated.hidden (h : service.Rotated service')
    (hhidden : ∀ c ∈ service.credentials, c.Hidden) : ∀ c ∈ service'.credentials, c.Hidden := by
  intro c hc
  have hrel := h.credentials
  rw [hc] at hrel
  cases hbefore : service.credentials with
  | none =>
      rw [hbefore] at hrel
      cases hrel
  | some before =>
      rw [hbefore] at hrel
      cases hrel with
      | some hrotated => exact hrotated.hidden (hhidden before hbefore)

/-- While the credentials are hidden, a call has the same key before and after a rotation, and
fails in the same way if it fails. -/
theorem key_eq_of_rotated (h : service.Rotated service')
    (hhidden : ∀ c ∈ service.credentials, c.Hidden) (name : String) (arguments : Arguments)
    (strict : Bool) :
    (service.prepare .declared name arguments strict).map (·.key service)
      = (service'.prepare .declared name arguments strict).map (·.key service') := by
  have hname : service'.name = service.name := by rw [← h.rest]
  have hprepare : service'.prepare .anonymous name arguments strict
      = service.prepare .anonymous name arguments strict := by
    rw [← h.rest, prepare_withCredentials]
  have hafter : service'.prepare .declared name arguments strict = _ :=
    prepare_eq_map .declared name arguments strict
  rw [prepare_eq_map .declared, hafter, hprepare]
  cases service.prepare .anonymous name arguments strict with
  | error e => simp only [Except.map]
  | ok prepared =>
      -- Both keys are the one that the request has without credentials.
      have hplain : prepared.key service = prepared.key service' := by
        unfold Prepared.key
        rw [hname]
      simp only [Except.map]
      rw [key_declared hhidden, key_declared (h.hidden hhidden), hplain]

/-- A service with one endpoint and the given credentials. -/
def rotatingService (credentials : Credentials) : Service :=
  { Session.methodService .get with credentials := some credentials }

/-- The rules ask for nothing about credentials. -/
theorem check_rotatingService (credentials : Credentials) :
    (rotatingService credentials).check = .ok () :=
  Session.check_methodService (Or.inl rfl)

/-- Rotating credentials rotates the service that has them. -/
theorem rotated_rotatingService {credentials credentials' : Credentials}
    (h : credentials.Rotated credentials') :
    (rotatingService credentials).Rotated (rotatingService credentials') :=
  ⟨rfl, .some h⟩

/-- The endpoint keeps its key when the token changes. -/
theorem key_eq_of_newToken :
    (rotatingService (.bearer "k1")).Rotated (rotatingService (.bearer "k2")) ∧
    ((rotatingService (.bearer "k1")).prepare .declared "users" [] false).map
        (·.key (rotatingService (.bearer "k1")))
      = ((rotatingService (.bearer "k2")).prepare .declared "users" [] false).map
        (·.key (rotatingService (.bearer "k2"))) := by
  have hrotated := rotated_rotatingService (.bearer "k1" "k2")
  refine ⟨hrotated, key_eq_of_rotated hrotated ?_ "users" [] false⟩
  intro c hc
  obtain rfl : Credentials.bearer "k1" = c := Option.some.inj hc
  exact Credentials.hidden_bearer "k1"

/-! ### Headers that are not left out -/

/-- The request of the endpoint with an API key in a header of its own. -/
def tokenPrepared (value : String) : Prepared where
  operation := (Session.methodCall .get).prepared.operation
  request := { method := .get, url := "http://h/users", headers := [("X-Token", value)] }

/-- The request that the endpoint is prepared as, with the API key in its header. -/
theorem prepare_rotatingService (value : String) :
    (rotatingService (.apiKey "X-Token" value)).prepare .declared "users" [] false
      = .ok (tokenPrepared value) := by
  rw [prepare_eq_map, rotatingService, prepare_withCredentials, Session.prepare_methodService]
  rfl

/-- Accepted services that differ in the value of an API key only may have different keys for one
call. -/
theorem not_key_eq_of_rotated :
    ¬ ∀ service service' : Service, service.check = .ok () → service'.check = .ok () →
      service.Rotated service' → ∀ (name : String) (arguments : Arguments) (strict : Bool),
      (service.prepare .declared name arguments strict).map (·.key service)
        = (service'.prepare .declared name arguments strict).map (·.key service') := by
  intro h
  have hkeys := h _ _ (check_rotatingService _) (check_rotatingService _)
    (rotated_rotatingService (.apiKey "X-Token" "k1" "k2")) "users" [] false
  rw [prepare_rotatingService, prepare_rotatingService] at hkeys
  have hdigests : (tokenPrepared "k1").key (rotatingService (.apiKey "X-Token" "k1"))
      ≠ (tokenPrepared "k2").key (rotatingService (.apiKey "X-Token" "k2")) := by
    decide +kernel
  exact hdigests (Except.ok.inj hkeys)

end Service
end DeclaredApi
