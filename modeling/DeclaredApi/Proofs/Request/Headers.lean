import DeclaredApi.Proofs.Arguments.Parts
import DeclaredApi.Proofs.Request.Valid

/-!
# `DeclaredApi.Proofs.Request.Headers`: how often a header is sent

The headers of a request have three sources: arguments for headers, the content type of a body, and
the credentials. Each of them spells the name of its header in its own way, and headers are told
apart by their spellings, while a server takes all spellings of a name for one header.

`keys_headers_of_prepare` says which spellings are sent: those that some source asks for
(`Resolution.AsksFor`). So a name is sent once at most exactly if all that ask for it spell it alike
(`sent_once_of_prepare`). A body has a content type in any case, and credentials are sent as they
are; but an argument for a header may ask for either of them in another spelling, and then the
request has both (`not_sent_once`).
-/

set_option autoImplicit false

namespace DeclaredApi

/-! ### Headers from arguments -/

namespace RequestParts

variable {slotOf : String → Slot} {arguments : Arguments}

/-- An argument for a header is put into it, unless it is null. -/
theorem headers_place (parts : RequestParts) (slot : Slot) (name : String) (value : Json) :
    (parts.place slot name value).headers
      = if slot = .header ∧ value.isNull = false then
          Dict.insert name value.plainText parts.headers
        else parts.headers := by
  cases slot with
  | path | query | body => rfl
  | header => cases hnull : value.isNull <;> simp [place, hnull]

/-- Putting arguments into their slots lays their headers over those that are there. -/
theorem headers_foldl_place (path : String) (parts : RequestParts) :
    (arguments.foldl (fun parts (name, value) =>
        parts.place (slotOf name) name value) parts).headers
      = Dict.overlay parts.headers (ofSlots slotOf path arguments).headers := by
  induction arguments generalizing parts with
  | nil => rfl
  | cons argument rest ih =>
      obtain ⟨name, value⟩ := argument
      rw [List.foldl_cons, ih]
      show Dict.overlay (parts.place (slotOf name) name value).headers _ = _
      rw [headers_place]
      by_cases hsent : slotOf name = .header ∧ value.isNull = false
      · rw [if_pos hsent]
        simp [ofSlots, Arguments.inSlot, hsent, Dict.overlay]
      · -- An argument without a header is for another slot, or null.
        rw [if_neg hsent]
        refine congrArg (Dict.overlay parts.headers) ?_
        by_cases hslot : slotOf name = .header
        · have hnull : value.isNull = true := by simpa [hslot] using hsent
          simp [ofSlots, Arguments.inSlot, hslot, hnull]
        · simp [ofSlots, Arguments.inSlot, hslot]

/-- The headers of the parts are the arguments for headers that are not null, with their plain
texts. -/
theorem mem_headers_ofSlots {path spelling text : String} :
    (spelling, text) ∈ (ofSlots slotOf path arguments).headers ↔
      ∃ value, (spelling, value) ∈ arguments ∧ slotOf spelling = .header ∧ value.isNull = false ∧
        value.plainText = text := by
  simp only [ofSlots, Arguments.inSlot, List.mem_map, List.mem_filter, Prod.exists,
    Prod.mk.injEq, decide_eq_true_eq, Bool.not_eq_true]
  constructor
  · rintro ⟨name, value, ⟨⟨hmem, hslot⟩, hnull⟩, rfl, htext⟩
    exact ⟨value, hmem, hslot, hnull, htext⟩
  · rintro ⟨value, hmem, hslot, hnull, htext⟩
    exact ⟨spelling, value, ⟨⟨hmem, hslot⟩, hnull⟩, rfl, htext⟩

end RequestParts

/-- The headers of the parts of a request are the arguments for headers that are not null. -/
theorem Arguments.headers_of_parts {op : Operation Call} {expected : Expected}
    {arguments : Arguments} {parts : RequestParts} (h : arguments.parts op expected = .ok parts) :
    Dict.Sorted parts.headers ∧ ∀ spelling, spelling ∈ Dict.keys parts.headers ↔
      ∃ value, (spelling, value) ∈ arguments ∧ op.slotFor expected spelling = .header ∧
        value.isNull = false := by
  obtain ⟨path, -, rfl⟩ := exists_foldl_of_parts h
  rw [RequestParts.headers_foldl_place path]
  refine ⟨Dict.sorted_ofList _, fun spelling => ?_⟩
  show spelling ∈ Dict.keys (Dict.ofList _) ↔ _
  rw [Dict.mem_keys_ofList]
  simp only [RequestParts.mem_headers_ofSlots]
  constructor
  · rintro ⟨_, value, hmem, hslot, hnull, -⟩
    exact ⟨value, hmem, hslot, hnull⟩
  · rintro ⟨value, hmem, hslot, hnull⟩
    exact ⟨_, value, hmem, hslot, hnull, rfl⟩

/-! ### Headers of a request -/

/-- The headers of that name, in all its spellings. -/
def Request.headersNamed (request : Request) (name : String) : List (String × String) :=
  request.headers.filter fun header => Text.foldCase header.1 = Text.foldCase name

/-- What an authenticator adds to the requests for a service: one header, or nothing. -/
def Authenticator.Adds (authenticate : Authenticator) (service : Service)
    (credential? : Option (String × String)) : Prop :=
  ∀ request, authenticate service request =
    match credential? with
    | none => request
    | some (name, value) => { request with headers := Dict.insert name value request.headers }

/-- The declared credentials are one header. -/
theorem Authenticator.declared_adds (service : Service) :
    Authenticator.declared.Adds service (service.credentials.map Credentials.header) := by
  intro request
  unfold declared
  cases service.credentials <;> rfl

/-- The spellings of headers that are asked for.

- `argument`: an argument for a header that is not null, under its own name;
- `body`: a body asks for a content type;
- `credential`: the header of the credentials. -/
inductive Resolution.AsksFor (r : Resolution) (hasBody : Bool)
    (credential? : Option (String × String)) : String → Prop where
  | argument {name : String} {value : Json} (hmem : (name, value) ∈ r.effective)
    (hslot : r.operation.slotFor (.ofOperation r.operation) name = .header)
    (hnull : value.isNull = false) : AsksFor r hasBody credential? name
  | body (hbody : hasBody = true) : AsksFor r hasBody credential? "Content-Type"
  | credential {name value : String} (hcredential : credential? = some (name, value)) :
    AsksFor r hasBody credential? name

/-- All that ask for a header of that name spell it alike. -/
def OneSpelling (asks : String → Prop) (name : String) : Prop :=
  ∀ spelling other, asks spelling → asks other → Text.foldCase spelling = Text.foldCase name →
    Text.foldCase other = Text.foldCase name → spelling = other

/-- A content type is added to the headers of a request with a body, if it is not there. -/
theorem Request.keys_withContentType (request : Request) (h : Dict.Sorted request.headers) :
    request.withContentType.body = request.body ∧ Dict.Sorted request.withContentType.headers ∧
      ∀ spelling, spelling ∈ Dict.keys request.withContentType.headers ↔
        spelling ∈ Dict.keys request.headers ∨
          (request.body.isSome = true ∧ spelling = "Content-Type") := by
  unfold withContentType
  split
  · next hadd =>
      refine ⟨rfl, Dict.sorted_insert h _ _, fun spelling => ?_⟩
      simp [Dict.mem_keys_insert, hadd.1, or_comm]
  · next hkeep =>
      refine ⟨rfl, h, fun spelling => ?_⟩
      constructor
      · exact Or.inl
      · rintro (hmem | ⟨hbody, rfl⟩)
        · exact hmem
        · -- A body without a new content type has one already.
          rw [← Dict.isSome_find?_iff]
          simpa [hbody, Dict.has, Option.isSome_iff_ne_none] using hkeep

/-- A header is sent once at most if it is sent in one spelling. -/
theorem Request.length_headersNamed_le_one_iff {request : Request}
    (h : Dict.Sorted request.headers) {name : String} :
    (request.headersNamed name).length ≤ 1 ↔
      OneSpelling (· ∈ Dict.keys request.headers) name := by
  have hmem : ∀ header, header ∈ request.headersNamed name ↔
      header ∈ request.headers ∧ Text.foldCase header.1 = Text.foldCase name := by
    simp [headersNamed]
  constructor
  · intro hlength spelling other hspelling hother hfold hfold'
    obtain ⟨header, hheader, rfl⟩ := List.mem_map.mp hspelling
    obtain ⟨header', hheader', rfl⟩ := List.mem_map.mp hother
    have hfirst := (hmem header).mpr ⟨hheader, hfold⟩
    have hsecond := (hmem header').mpr ⟨hheader', hfold'⟩
    obtain ⟨only, honly⟩ := List.length_eq_one_iff.mp
      (Nat.le_antisymm hlength (List.length_pos_of_mem hfirst))
    rw [honly, List.mem_singleton] at hfirst hsecond
    rw [hfirst, hsecond]
  · intro hone
    have hsorted : Dict.Sorted (request.headersNamed name) := Dict.sorted_filter h _
    cases hnamed : request.headersNamed name with
    | nil => exact Nat.zero_le 1
    | cons first others =>
        cases others with
        | nil => exact le_rfl
        | cons second rest =>
            -- Two headers would be two spellings.
            rw [hnamed] at hsorted hmem
            obtain ⟨hfirst, hfold⟩ := (hmem first).mp List.mem_cons_self
            obtain ⟨hsecond, hfold'⟩ := (hmem second).mp (List.mem_cons_of_mem _ List.mem_cons_self)
            have hlt := (List.pairwise_cons.mp hsorted).1 second List.mem_cons_self
            exact absurd (hone _ _ (List.mem_map_of_mem hfirst) (List.mem_map_of_mem hsecond)
              hfold hfold') (ne_of_lt hlt)

namespace Service

variable {service : Service} {authenticate : Authenticator} {name : String}
  {arguments : Arguments} {strict : Bool} {prepared : Prepared}
  {credential? : Option (String × String)}

/-- A request has the headers that are asked for, each spelling once, and the credentials as they
are. -/
theorem keys_headers_of_prepare (hadds : authenticate.Adds service credential?)
    (h : service.prepare authenticate name arguments strict = .ok prepared) :
    ∃ r, service.resolve name arguments = .ok r ∧ r.operation = prepared.operation ∧
      Dict.Sorted prepared.request.headers ∧
      (∀ spelling, spelling ∈ Dict.keys prepared.request.headers ↔
        r.AsksFor prepared.request.body.isSome credential? spelling) ∧
      ∀ credential ∈ credential?, credential ∈ prepared.request.headers := by
  obtain ⟨r, parts, hresolve, hparts, hoperation, hrequest⟩ := exists_of_prepare h
  obtain ⟨hsorted, hkeys⟩ := Arguments.headers_of_parts hparts
  refine ⟨r, hresolve, hoperation.symm, ?_⟩
  -- Before the credentials come, the headers are those of the arguments and the content type.
  have hheaders : (service.request r.operation parts).headers = parts.headers := by
    unfold request
    cases r.operation.call <;> rfl
  have htyped := Request.keys_withContentType (service.request r.operation parts)
    (hheaders ▸ hsorted)
  rw [hheaders] at htyped
  generalize (service.request r.operation parts).withContentType = typed at hrequest htyped
  obtain ⟨hbody, htypedSorted, htypedKeys⟩ := htyped
  have hasks : ∀ spelling, r.AsksFor typed.body.isSome credential? spelling ↔
      spelling ∈ Dict.keys typed.headers ∨ ∃ value, credential? = some (spelling, value) := by
    intro spelling
    rw [htypedKeys, hkeys, hbody]
    constructor
    · rintro (⟨hmem, hslot, hnull⟩ | hsome | hcredential)
      · exact Or.inl (Or.inl ⟨_, hmem, hslot, hnull⟩)
      · exact Or.inl (Or.inr ⟨hsome, rfl⟩)
      · exact Or.inr ⟨_, hcredential⟩
    · rintro ((⟨value, hmem, hslot, hnull⟩ | ⟨hsome, rfl⟩) | ⟨value, hcredential⟩)
      · exact .argument hmem hslot hnull
      · exact .body hsome
      · exact .credential hcredential
  rw [hrequest, hadds]
  cases credential? with
  | none =>
      refine ⟨htypedSorted, fun spelling => ?_, by simp⟩
      rw [hasks]
      simp
  | some credential =>
      obtain ⟨header, value⟩ := credential
      refine ⟨Dict.sorted_insert htypedSorted _ _, fun spelling => ?_, ?_⟩
      · rw [hasks, Dict.mem_keys_insert]
        simp [or_comm, eq_comm]
      · rintro _ ⟨⟩
        exact Dict.mem_of_find? (by rw [Dict.find?_insert, if_pos rfl])

/-- A header is sent once at most exactly if all that ask for it spell it alike. A body has a
content type, and the credentials are sent as they are, and as the only header of their name under
the same condition. -/
theorem sent_once_of_prepare (hadds : authenticate.Adds service credential?)
    (h : service.prepare authenticate name arguments strict = .ok prepared) :
    ∃ r, service.resolve name arguments = .ok r ∧ r.operation = prepared.operation ∧
      (∀ header, (prepared.request.headersNamed header).length ≤ 1 ↔
        OneSpelling (r.AsksFor prepared.request.body.isSome credential?) header) ∧
      (prepared.request.body.isSome = true →
        1 ≤ (prepared.request.headersNamed "Content-Type").length) ∧
      ∀ credential ∈ credential?, credential ∈ prepared.request.headersNamed credential.1 ∧
        (prepared.request.headersNamed credential.1 = [credential] ↔
          OneSpelling (r.AsksFor prepared.request.body.isSome credential?) credential.1) := by
  obtain ⟨r, hresolve, hoperation, hsorted, hkeys, hcredentials⟩ := keys_headers_of_prepare hadds h
  have hcount : ∀ header, (prepared.request.headersNamed header).length ≤ 1 ↔
      OneSpelling (r.AsksFor prepared.request.body.isSome credential?) header := by
    intro header
    rw [Request.length_headersNamed_le_one_iff hsorted, funext fun s => propext (hkeys s)]
  refine ⟨r, hresolve, hoperation, hcount, ?_, ?_⟩
  · intro hbody
    obtain ⟨header, hmem, hname⟩ := List.mem_map.mp ((hkeys "Content-Type").mpr (.body hbody))
    refine List.length_pos_of_mem (List.mem_filter.mpr ⟨hmem, ?_⟩)
    simp [hname]
  · intro credential hcredential
    -- The credential is one of the headers with its name, so it is alone if they are at most one.
    have hmem : credential ∈ prepared.request.headersNamed credential.1 :=
      List.mem_filter.mpr ⟨hcredentials credential hcredential, by simp⟩
    refine ⟨hmem, ?_⟩
    rw [← hcount]
    constructor
    · intro honly
      rw [honly]
      exact le_rfl
    · intro hlength
      obtain ⟨only, honly⟩ := List.length_eq_one_iff.mp
        (Nat.le_antisymm hlength (List.length_pos_of_mem hmem))
      rw [honly, List.mem_singleton] at hmem
      rw [honly, hmem]

/-! ### A search with headers of its own -/

/-- A search whose parameters are headers of the given names. -/
def searchService (headers : List String) : Service where
  name := "svc"
  baseUrl := "http://h/graphql"
  credentials := some (.bearer "t")
  graphqlOperations := [{
    name := "search", call := ⟨.query, "query \x7b users \x7d"⟩
    parameters := headers.map fun header => { name := header, slot := .header } }]

/-- The request for it, with the given headers. -/
def searchPrepared (parameters : List String) (headers : Dict String) : Prepared where
  operation := {
    name := "search", call := .graphql ⟨.query, "query \x7b users \x7d"⟩
    parameters := parameters.map fun header => { name := header, slot := .header } }
  request := {
    method := .post, url := "http://h/graphql", headers
    body := some (.object [("query", .string "query \x7b users \x7d"),
      ("variables", .object [])]) }

/-- The request with a header that is neither a content type nor a credential. -/
def tracedPrepared : Prepared :=
  searchPrepared ["X-Trace"] [("Authorization", "Bearer t"), ("Content-Type", "application/json"),
    ("X-Trace", "1")]

/-- The request with one header of its own that the credentials do not touch. -/
theorem prepare_traced :
    (searchService ["X-Trace"]).prepare .declared "search" [("X-Trace", .string "1")] false
      = .ok tracedPrepared :=
  rfl

/-- What the call stands for. -/
def traced : Resolution :=
  ⟨tracedPrepared.operation, none, [("X-Trace", .string "1")]⟩

/-- No two of the three spellings that are asked for are of one name. -/
theorem oneSpelling_traced (name : String) :
    OneSpelling (traced.AsksFor true (some ("Authorization", "Bearer t"))) name := by
  have hasked : ∀ spelling, traced.AsksFor true (some ("Authorization", "Bearer t")) spelling →
      spelling ∈ ["X-Trace", "Content-Type", "Authorization"] := by
    intro spelling hasks
    cases hasks with
    | argument hmem _ _ =>
        cases List.mem_singleton.mp hmem
        decide
    | body _ => decide
    | credential hsome =>
        cases hsome
        decide
  have hapart : ∀ spelling ∈ ["X-Trace", "Content-Type", "Authorization"],
      ∀ other ∈ ["X-Trace", "Content-Type", "Authorization"],
      spelling.toList.map Char.toLower = other.toList.map Char.toLower → spelling = other := by
    decide
  intro spelling other hspelling hother hfold hfold'
  exact hapart _ (hasked _ hspelling) _ (hasked _ hother)
    (Text.foldCase_eq_foldCase_iff.mp (hfold.trans hfold'.symm))

/-- The request has one content type, and the credentials and no other header of their name. -/
theorem sent_once_of_traced :
    (Authenticator.declared.Adds (searchService ["X-Trace"]) (some ("Authorization", "Bearer t")) ∧
      (searchService ["X-Trace"]).prepare .declared "search" [("X-Trace", .string "1")] false
        = .ok tracedPrepared) ∧
    (tracedPrepared.request.headersNamed "Content-Type").length = 1 ∧
    tracedPrepared.request.headersNamed "Authorization" = [("Authorization", "Bearer t")] := by
  have hadds := Authenticator.declared_adds (searchService ["X-Trace"])
  obtain ⟨r, hresolve, -, hcount, hbody, hcredential⟩ := sent_once_of_prepare hadds prepare_traced
  obtain rfl : traced = r := Except.ok.inj hresolve
  obtain ⟨-, honly⟩ := hcredential ("Authorization", "Bearer t") rfl
  exact ⟨⟨hadds, prepare_traced⟩,
    Nat.le_antisymm ((hcount _).mpr (oneSpelling_traced _)) (hbody rfl),
    honly.mpr (oneSpelling_traced _)⟩

/-- A request with two spellings of the content type, and two of the header of the credentials. -/
def twicePrepared : Prepared :=
  searchPrepared ["authorization", "content-type"] [("Authorization", "Bearer t"),
    ("Content-Type", "application/json"), ("authorization", "1"), ("content-type", "text/plain")]

/-- The request in which the body and the credentials add a second spelling of headers. -/
theorem prepare_twice :
    (searchService ["authorization", "content-type"]).prepare .declared "search"
        [("authorization", .string "1"), ("content-type", .string "text/plain")] false
      = .ok twicePrepared :=
  rfl

/-- An argument for a header may ask for the content type or for the header of the credentials in
another spelling, and then a request of an accepted service has both. -/
theorem not_sent_once :
    ¬ ∀ (service : Service) (name : String) (arguments : Arguments) (strict : Bool)
      (prepared : Prepared), service.check = .ok () →
      service.prepare .declared name arguments strict = .ok prepared →
      (prepared.request.headersNamed "Content-Type").length ≤ 1 ∨
        ∀ credentials ∈ service.credentials,
          prepared.request.headersNamed credentials.header.1 = [credentials.header] := by
  intro h
  have hcheck : (searchService ["authorization", "content-type"]).check = .ok () := by
    have hblank : Text.isBlankString "svc" = false ∧ Text.isBlankString "search" = false := by
      decide
    refine check_of_operations_eq rfl rfl hblank.1 (by simp [searchService]) ?_
    refine Operation.check_eq_ok_iff.mpr ⟨hblank.2, fun _ hpath => ?_, fun hcached => ?_⟩
    · cases hpath
    · cases hcached
  rcases h _ _ _ _ _ hcheck prepare_twice with hcount | hcredentials
  · simp [Request.headersNamed, twicePrepared, searchPrepared,
      Text.foldCase_eq_foldCase_iff] at hcount
  · have honly := hcredentials (.bearer "t") rfl
    simp [Request.headersNamed, twicePrepared, searchPrepared, Text.foldCase_eq_foldCase_iff,
      Credentials.header] at honly

end Service
end DeclaredApi
