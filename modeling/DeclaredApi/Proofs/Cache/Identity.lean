import DeclaredApi.Cache.Key
import DeclaredApi.Proofs.Json.Same
import DeclaredApi.Proofs.Json.Value

/-!
# `DeclaredApi.Proofs.Cache.Identity`: what a key tells about a request

A key ends with a part of a digest, and that part always has the same length. So equal keys
have equal digests and equal names before them, even where a name has a dot in it
(`digest_eq_of_key_eq`, `operation_eq_of_key_eq`).

The digest is taken of the text of the identity, and the text gives the identity back
(`identity_inj`): service, operation, address and body as they are, and the headers as
`identityHeaders` folds them. What the folded headers still tell is `find?_identityHeaders_iff`:
a header that has one value only is there with that value. Of a name that is spelled in
several ways, with several values, the identity keeps one, and that is the value of the last
spelling (`find?_identityHeaders_iff_last`).

So the texts of two identities are equal exactly when nothing that they keep differs
(`render_identity_eq_iff`). Of bodies they keep more than their equality as values: the two zeros
of a double are equal values with different texts (`not_render_identity_eq_iff_same`).
-/

set_option autoImplicit false

namespace DeclaredApi.Cache

/-! ### The parts of a key -/

/-- The part of a digest that a key has. -/
def shortDigest (identity : Json) : List Char :=
  (Sha256.hexDigest identity.render).take digestLength

/-- A word of the digest is eight digits. -/
theorem length_wordText (w : UInt32) : (Sha256.wordText w).length = 8 := by
  simp [Sha256.wordText]

/-- The part of the digest that is in a key is sixteen digits. -/
theorem length_shortDigest (identity : Json) : (shortDigest identity).length = 16 := by
  simp [shortDigest, digestLength, Sha256.hexDigest, Sha256.State.text, length_wordText]

/-- A hexadecimal digit is no dot. -/
theorem not_mem_wordText_dot (w : UInt32) : '.' ∉ Sha256.wordText w := by
  have hdigit : ∀ n < 16, Nat.digitChar n ≠ '.' := by decide
  simp only [Sha256.wordText, List.mem_reverse, List.mem_map, not_exists, not_and]
  intro i _ heq
  exact hdigit _ (Nat.mod_lt _ (by decide)) heq

/-- A digest has no dot in it. -/
theorem not_mem_shortDigest_dot (identity : Json) : '.' ∉ shortDigest identity := by
  intro hmem
  have hdigits := List.mem_of_mem_take hmem
  simp only [Sha256.hexDigest, Sha256.State.text, List.mem_flatMap] at hdigits
  obtain ⟨w, -, hdot⟩ := hdigits
  exact not_mem_wordText_dot w hdot

/-- The characters of a key. -/
theorem toList_key (service operation url : String) (headers : Dict String)
    (body : Option Json) :
    (key service operation url headers body).toList
      = (service ++ "." ++ operation ++ ".").toList
        ++ shortDigest (identity service operation url headers body) := by
  simp [key, shortDigest, String.toList_append]

section Keys

variable {service service' operation operation' url url' : String}
  {headers headers' : Dict String} {body body' : Option Json}

/-- Equal keys have equal digests. -/
theorem digest_eq_of_key_eq (h : key service operation url headers body
      = key service' operation' url' headers' body') :
    shortDigest (identity service operation url headers body)
      = shortDigest (identity service' operation' url' headers' body') := by
  have hchars := congrArg String.toList h
  rw [toList_key, toList_key] at hchars
  -- The digests are as long as each other, so they are the same ends of the two keys.
  refine (List.append_inj' hchars ?_).2
  rw [length_shortDigest, length_shortDigest]

/-- Equal keys of one service are keys of one operation. -/
theorem operation_eq_of_key_eq (h : key service operation url headers body
      = key service operation' url' headers' body') : operation = operation' := by
  have hchars := congrArg String.toList h
  rw [toList_key, toList_key] at hchars
  have hnames := (List.append_inj' hchars (by rw [length_shortDigest, length_shortDigest])).1
  simp only [String.toList_append, List.append_assoc] at hnames
  -- The name of the service, its dot and the last dot are the same on both sides.
  have hrest := List.append_cancel_left (List.append_cancel_left hnames)
  exact String.toList_inj.mp (List.append_cancel_right hrest)

/-! ### The parts of an identity -/

/-- The identity with its members in order. -/
theorem identity_eq : identity service operation url headers body
    = .object ((body.map fun body => ("body", body)).toList ++
        [("endpoint", .string operation),
         ("headers", .object ((identityHeaders headers).map fun (name, value) =>
            (name, .string value))),
         ("service", .string service), ("url", .string url)]) := by
  -- Where each name goes when it is inserted.
  have hendpoint : "endpoint" < "service" := by decide
  have hheaders : "headers" < "service" ∧ ¬"headers" < "endpoint" := by decide
  have hbody : "body" < "endpoint" := by decide
  cases body <;>
    simp [identity, Json.ofMembers, Dict.ofList, Dict.insert, hendpoint, hheaders, hbody,
      -String.lt_iff_ltb]

/-- The identity gives back what it was made of, with the headers folded. -/
theorem identity_inj (h : identity service operation url headers body
      = identity service' operation' url' headers' body') :
    service = service' ∧ operation = operation' ∧ url = url' ∧
      identityHeaders headers = identityHeaders headers' ∧ body = body' := by
  rw [identity_eq, identity_eq] at h
  have hmembers := Json.object.inj h
  -- Four members follow the body, so the lists are split at the same place from their ends.
  obtain ⟨hbody, hrest⟩ := List.append_inj' hmembers rfl
  simp only [List.cons.injEq, Prod.mk.injEq, true_and, and_true, Json.string.injEq,
    Json.object.injEq] at hrest
  obtain ⟨hoperation, hheaders, hservice, hurl⟩ := hrest
  refine ⟨hservice, hoperation, hurl, ?_, ?_⟩
  · -- The headers are written as strings, one for one.
    refine List.map_injective_iff.2 ?_ hheaders
    rintro ⟨name, value⟩ ⟨name', value'⟩ heq
    simpa using heq
  · -- No body leaves no member, not one that is null.
    cases body <;> cases body' <;> simp_all

end Keys

/-! ### The headers of an identity -/

/-- The headers give `value` for a name, in some spelling. -/
def Sends (headers : Dict String) (name value : String) : Prop :=
  ∃ spelling, (spelling, value) ∈ headers ∧ Text.foldCase spelling = name

/-- Whatever spellings the headers have of a name, they give it one value. -/
def OneValue (headers : Dict String) (name : String) : Prop :=
  ∀ value other, Sends headers name value → Sends headers name other → value = other

/-- A header that is no secret and has one value only is in the identity with that value. -/
theorem find?_identityHeaders_iff {headers : Dict String} {name value : String}
    (hopen : name ∉ secretHeaders) (hone : OneValue headers name) :
    Dict.find? name (identityHeaders headers) = some value ↔ Sends headers name value := by
  have hmem : ∀ found, (name, found) ∈ (headers.map fun (spelling, found) =>
        (Text.foldCase spelling, found)).filter (fun header => ¬ secretHeaders.contains header.1)
      ↔ Sends headers name found := by
    intro found
    simp only [List.mem_filter, List.mem_map, Prod.mk.injEq, Prod.exists]
    constructor
    · rintro ⟨⟨spelling, _, hheader, hfold, rfl⟩, -⟩
      exact ⟨spelling, hheader, hfold⟩
    · rintro ⟨spelling, hheader, hfold⟩
      exact ⟨⟨spelling, found, hheader, hfold, rfl⟩, by simpa using hopen⟩
  rw [← hmem, identityHeaders]
  constructor
  · intro hfind
    exact Dict.mem_ofList_imp (Dict.mem_of_find? hfind)
  · intro hvalue
    -- Some value stands under the name, and it is one that the headers give.
    obtain ⟨found, hfind⟩ := Dict.exists_find?_ofList hvalue
    have hfound := (hmem found).mp (Dict.mem_ofList_imp (Dict.mem_of_find? hfind))
    rw [hfind, hone found value hfound ((hmem value).mp hvalue)]

/-! ### The last spelling of a header -/

/-- The last of the spellings that the headers have of a name comes with `value`. -/
def SendsLast (headers : Dict String) (name value : String) : Prop :=
  ∃ spelling, (spelling, value) ∈ headers ∧ Text.foldCase spelling = name ∧
    ∀ header ∈ headers, Text.foldCase header.1 = name → header.1 ≤ spelling

/-- Without headers nothing is sent. -/
theorem not_sendsLast_nil (name value : String) : ¬ SendsLast [] name value := by
  rintro ⟨_, hmem, -⟩
  cases hmem

/-- A header that comes after all others decides the value of its name. -/
theorem sendsLast_concat_self {headers : Dict String} {header : String × String}
    (hsorted : Dict.Sorted (headers ++ [header])) (value : String) :
    SendsLast (headers ++ [header]) (Text.foldCase header.1) value ↔ header.2 = value := by
  have hbefore : ∀ entry ∈ headers, entry.1 < header.1 := by
    intro entry hentry
    exact (List.pairwise_append.mp hsorted).2.2 entry hentry header List.mem_cons_self
  constructor
  · rintro ⟨spelling, hmem, -, hlast⟩
    -- An earlier spelling would not be the last one.
    have hle : header.1 ≤ spelling := hlast header (by simp) rfl
    rcases List.mem_append.mp hmem with hearlier | hthis
    · exact absurd (hbefore _ hearlier) (not_lt.mpr hle)
    · rw [← List.mem_singleton.mp hthis]
  · rintro rfl
    have hlast : ∀ entry ∈ headers ++ [header], entry.1 ≤ header.1 := by
      intro entry hentry
      rcases List.mem_append.mp hentry with hearlier | hthis
      · exact (hbefore entry hearlier).le
      · rw [List.mem_singleton.mp hthis]
    exact ⟨header.1, by simp, rfl, fun entry hentry _ => hlast entry hentry⟩

/-- A header of another name has no part in what is sent last. -/
theorem sendsLast_concat_of_ne {headers : Dict String} {header : String × String} {name : String}
    (hname : Text.foldCase header.1 ≠ name) (value : String) :
    SendsLast (headers ++ [header]) name value ↔ SendsLast headers name value := by
  have hmem : ∀ entry, Text.foldCase entry.1 = name →
      (entry ∈ headers ++ [header] ↔ entry ∈ headers) := by
    intro entry hentry
    have hne : entry ≠ header := by
      rintro rfl
      exact hname hentry
    simp [hne]
  constructor
  · rintro ⟨spelling, hheader, hfold, hlast⟩
    refine ⟨spelling, (hmem _ hfold).mp hheader, hfold, ?_⟩
    intro entry hentry hentryName
    exact hlast entry ((hmem entry hentryName).mpr hentry) hentryName
  · rintro ⟨spelling, hheader, hfold, hlast⟩
    refine ⟨spelling, (hmem _ hfold).mpr hheader, hfold, ?_⟩
    intro entry hentry hentryName
    exact hlast entry ((hmem entry hentryName).mp hentry) hentryName

/-- A header at the end is put into the identity over what is there, unless it is a secret. -/
theorem identityHeaders_concat (headers : Dict String) (header : String × String) :
    identityHeaders (headers ++ [header])
      = if Text.foldCase header.1 ∈ secretHeaders then identityHeaders headers
        else Dict.insert (Text.foldCase header.1) header.2 (identityHeaders headers) := by
  split <;> rename_i hsecret <;>
    simp [identityHeaders, Dict.ofList, List.filter_append, List.foldl_append, hsecret]

/-- The headers of an identity are those that are no secrets, each with the value of its last
spelling. -/
theorem find?_identityHeaders_iff_last {headers : Dict String} (hsorted : Dict.Sorted headers)
    (name value : String) :
    Dict.find? name (identityHeaders headers) = some value
      ↔ name ∉ secretHeaders ∧ SendsLast headers name value := by
  -- By induction from the end, since a later header overrides the earlier ones.
  induction headers using List.reverseRecOn with
  | nil => simp [identityHeaders, Dict.ofList, Dict.find?, not_sendsLast_nil]
  | append_singleton headers header ih =>
      have hearlier := ih (List.pairwise_append.mp hsorted).1
      rw [identityHeaders_concat]
      by_cases hname : Text.foldCase header.1 = name
      · subst hname
        rw [sendsLast_concat_self hsorted]
        by_cases hsecret : Text.foldCase header.1 ∈ secretHeaders
        · -- No header with this name has come before, since it is a secret.
          rw [if_pos hsecret, hearlier]
          simp [hsecret]
        · rw [if_neg hsecret, Dict.find?_insert, if_pos rfl]
          simp [hsecret]
      · rw [sendsLast_concat_of_ne hname, ← hearlier]
        -- Whatever becomes of the header, the value under the name stays.
        split
        · rfl
        · rw [Dict.find?_insert, if_neg hname]

/-- Of every name that is no secret, the last spellings have one value in both maps, or there is
none in either. -/
def SendAlike (headers headers' : Dict String) : Prop :=
  ∀ name ∉ secretHeaders, ∀ value, SendsLast headers name value ↔ SendsLast headers' name value

/-- Two maps of headers leave the same in an identity when they send alike. -/
theorem identityHeaders_eq_iff {headers headers' : Dict String} (hsorted : Dict.Sorted headers)
    (hsorted' : Dict.Sorted headers') :
    identityHeaders headers = identityHeaders headers' ↔ SendAlike headers headers' := by
  constructor
  · intro heq name hopen value
    have hlast := find?_identityHeaders_iff_last hsorted name value
    rw [heq, find?_identityHeaders_iff_last hsorted'] at hlast
    exact ⟨fun h => (hlast.mpr ⟨hopen, h⟩).2, fun h => (hlast.mp ⟨hopen, h⟩).2⟩
  · intro hlast
    -- Both are sorted, so they are equal when they are equal under every name.
    apply Dict.eq_of_find?_eq (Dict.sorted_ofList _) (Dict.sorted_ofList _)
    intro name
    apply Option.ext
    intro value
    show Dict.find? name (identityHeaders headers) = some value
      ↔ Dict.find? name (identityHeaders headers') = some value
    rw [find?_identityHeaders_iff_last hsorted, find?_identityHeaders_iff_last hsorted']
    exact and_congr_right fun hopen => hlast name hopen value

/-! ### When the texts of two identities are equal -/

/-- There is no body on either side, or the two bodies are equal as values. -/
def SameBody (body body' : Option Json) : Prop :=
  Option.Rel (fun value value' => value.same value' = true) body body'

/-- Bodies without a negative zero are equal as values when they are one value. -/
theorem sameBody_iff_eq {body body' : Option Json}
    (hbody : ∀ value ∈ body, value.unsigned = value)
    (hbody' : ∀ value ∈ body', value.unsigned = value) :
    SameBody body body' ↔ body = body' := by
  unfold SameBody
  cases body with
  | none => cases body' <;> simp
  | some value =>
      cases body' with
      | none => simp
      | some value' =>
          simp [Json.same_iff_eq (hbody value rfl) (hbody' value' rfl)]

/-- The texts of two identities are equal exactly when service, operation, address and body are,
and the headers send alike. Where no body has a negative zero, it is enough that the bodies are
equal as values. -/
theorem render_identity_eq_iff (service service' operation operation' url url' : String)
    (headers headers' : Dict String) (body body' : Option Json)
    (hsorted : Dict.Sorted headers) (hsorted' : Dict.Sorted headers') :
    ((identity service operation url headers body).render
        = (identity service' operation' url' headers' body').render
      ↔ service = service' ∧ operation = operation' ∧ url = url' ∧ body = body' ∧
        SendAlike headers headers') ∧
    ((∀ value ∈ body, value.unsigned = value) → (∀ value ∈ body', value.unsigned = value) →
      ((identity service operation url headers body).render
          = (identity service' operation' url' headers' body').render
        ↔ service = service' ∧ operation = operation' ∧ url = url' ∧ SameBody body body' ∧
          SendAlike headers headers')) := by
  have hwhole : (identity service operation url headers body).render
        = (identity service' operation' url' headers' body').render
      ↔ service = service' ∧ operation = operation' ∧ url = url' ∧ body = body' ∧
        SendAlike headers headers' := by
    rw [← identityHeaders_eq_iff hsorted hsorted']
    constructor
    · intro htext
      -- The text gives the identity back, and the identity its parts.
      obtain ⟨hservice, hoperation, hurl, hheaders, hbody⟩ :=
        identity_inj (Json.render_injective htext)
      exact ⟨hservice, hoperation, hurl, hbody, hheaders⟩
    · rintro ⟨rfl, rfl, rfl, rfl, hheaders⟩
      rw [identity_eq, identity_eq, hheaders]
  refine ⟨hwhole, ?_⟩
  intro hbody hbody'
  rw [hwhole, sameBody_iff_eq hbody hbody']

/-- Headers with two spellings of one name, and a secret. -/
def twiceSpelled : Dict String :=
  [("Accept", "a"), ("X-A", "1"), ("authorization", "k1"), ("x-a", "2")]

/-- Other headers, with nothing in them that an identity would tell from `twiceSpelled`. -/
def onceSpelled : Dict String :=
  [("ACCEPT", "a"), ("x-a", "2")]

/-- The folded names of the headers in the example. -/
theorem foldCase_twiceSpelled : Text.foldCase "Accept" = "accept" ∧
    Text.foldCase "ACCEPT" = "accept" ∧ Text.foldCase "X-A" = "x-a" ∧
    Text.foldCase "x-a" = "x-a" ∧ Text.foldCase "authorization" = "authorization" := by
  simp only [Text.foldCase_eq_iff]
  decide

/-- The first of two spellings is not in the identity. -/
theorem identityHeaders_twiceSpelled :
    identityHeaders twiceSpelled = identityHeaders onceSpelled := by
  simp [identityHeaders, twiceSpelled, onceSpelled, foldCase_twiceSpelled, secretHeaders,
    Dict.ofList, Dict.insert, -String.lt_iff_ltb]

/-- The two maps of headers with no body: the texts are equal, and so the headers send alike. A
body that is null is another matter than no body. -/
theorem render_identity_of_twiceSpelled :
    Dict.Sorted twiceSpelled ∧ Dict.Sorted onceSpelled ∧
      (identity "svc" "users" "http://h" twiceSpelled none).render
        = (identity "svc" "users" "http://h" onceSpelled none).render ∧
      SendAlike twiceSpelled onceSpelled ∧
      (identity "svc" "users" "http://h" twiceSpelled (some .null)).render
        ≠ (identity "svc" "users" "http://h" onceSpelled none).render := by
  have htwice : Dict.Sorted twiceSpelled := by
    unfold Dict.Sorted twiceSpelled
    decide
  have honce : Dict.Sorted onceSpelled := by
    unfold Dict.Sorted onceSpelled
    decide
  have htext : (identity "svc" "users" "http://h" twiceSpelled none).render
      = (identity "svc" "users" "http://h" onceSpelled none).render := by
    rw [identity_eq, identity_eq, identityHeaders_twiceSpelled]
  have hnone : ∀ value ∈ (none : Option Json), value.unsigned = value := by
    intro value hvalue
    cases hvalue
  have hnull : ∀ value ∈ some Json.null, value.unsigned = value := by
    rintro value ⟨⟩
    rfl
  refine ⟨htwice, honce, htext, ?_, ?_⟩
  · obtain ⟨-, -, -, -, hlast⟩ :=
      (render_identity_eq_iff _ _ _ _ _ _ _ _ _ _ htwice honce).1.mp htext
    exact hlast
  · intro hnullText
    obtain ⟨-, -, -, hsame, -⟩ :=
      ((render_identity_eq_iff _ _ _ _ _ _ _ _ _ _ htwice honce).2 hnull hnone).mp hnullText
    cases hsame

/-- Two bodies that are equal as values and still make two texts: the two zeros of a double. -/
theorem not_render_identity_eq_iff_same :
    ¬ ∀ (service service' operation operation' url url' : String) (headers headers' : Dict String)
        (body body' : Option Json), Dict.Sorted headers → Dict.Sorted headers' →
      ((identity service operation url headers body).render
          = (identity service' operation' url' headers' body').render
        ↔ service = service' ∧ operation = operation' ∧ url = url' ∧ SameBody body body' ∧
          SendAlike headers headers') := by
  intro hiff
  have hsame : SameBody (some (.number (.float (.zero true))))
      (some (.number (.float (.zero false)))) := by
    exact .some rfl
  have htext := (hiff "svc" "svc" "users" "users" "http://h" "http://h" [] [] _ _
    Dict.sorted_nil Dict.sorted_nil).mpr ⟨rfl, rfl, rfl, hsame, fun _ _ _ => Iff.rfl⟩
  -- Equal texts would be texts of one body, and the zeros differ in their signs.
  obtain ⟨-, -, -, -, hbody⟩ := identity_inj (Json.render_injective htext)
  cases hbody

end DeclaredApi.Cache
