import DeclaredApi.Proofs.Arguments.Parts
import DeclaredApi.Proofs.Json.RoundTrip
import DeclaredApi.Proofs.Request.Valid
import DeclaredApi.Proofs.Template.Segments
import Mathlib.Data.List.TakeWhile

/-!
# `DeclaredApi.Proofs.Request.Segments`: arguments in the path of an address

The address of an endpoint is the base address, the filled template and the query. Its path is cut
by the slashes of the template and by no other (`segments_of_prepare`): an argument stays in its
segment. A segment that is one placeholder is the encoded form of an argument, so it is blank, one
dot or two exactly if the argument is that string (`Json.StandsAs`).

Such an argument is accepted, and dots are not encoded. So an argument may be a step of the path
and take away what the template has before it (`not_segments_kept`). Where no placeholder makes a
step, the steps of the path are those of the template, and its literal segments are in the places
that they have in the template.
-/

set_option autoImplicit false

namespace DeclaredApi

/-! ### Values in a path -/

/-- Only a string has a text that is no JSON text. -/
theorem Json.plainText_eq_iff {value : Json} {text : String}
    (hunread : Document.read? text.toList = none) (hnull : value.isNull = false) :
    value.plainText = text ↔ value = .string text := by
  have hrender : ∀ value : Json, value.render ≠ text := by
    rintro value rfl
    have hread := Document.read?_render value.document
    cases hunread.symm.trans hread
  cases value with
  | null => cases hnull
  | string s => simp [plainText]
  | bool | number | array | object => simp [plainText, hrender]

/-- The text of a segment is the encoded form of the value, and it means something in a path only
for the strings that mean that.

- `special`: the segment is blank, one dot or two exactly if the value is that string;
- `step`: the segment is a step, its dots encoded or not, exactly if the value is one dot or
  two. -/
structure Json.StandsAs (value : Json) (text : List Char) : Prop where
  encoded : text = (Text.percentEncode value.plainText).toList
  special : ∀ string ∈ ["", ".", ".."], text = string.toList ↔ value = .string string
  step : (Http.step? text).isSome = true ↔ value = .string "." ∨ value = .string ".."

/-- Encoding leaves blank texts and dots as they are, and makes them of nothing else. -/
theorem Json.standsAs_percentEncode {value : Json} (hnull : value.isNull = false) :
    value.StandsAs (Text.percentEncode value.plainText).toList where
  encoded := rfl
  special := by
    -- None of these strings is a JSON text, so no other value has it as its text.
    have hspecial : ∀ string : String, (Text.percentEncode string).toList = string.toList →
        Document.read? string.toList = none →
        ((Text.percentEncode value.plainText).toList = string.toList ↔ value = .string string) := by
      intro string hencoded hunread
      rw [← plainText_eq_iff hunread hnull, ← hencoded, String.toList_inj]
      exact Text.percentEncode_injective.eq_iff
    simp only [List.forall_mem_cons, List.not_mem_nil, false_implies, implies_true, and_true]
    exact ⟨hspecial "" rfl rfl, hspecial "." rfl rfl, hspecial ".." rfl rfl⟩
  step := by
    have hone : value.plainText = "." ↔ value = .string "." := plainText_eq_iff rfl hnull
    have htwo : value.plainText = ".." ↔ value = .string ".." := plainText_eq_iff rfl hnull
    rw [Http.step?_percentEncode, ← hone, ← htwo]
    split_ifs with hstay hup
    · simp [hstay]
    · simp [hup]
    · simp [hstay, hup]

/-! ### The address of an endpoint -/

/-- The authenticator changes no address. -/
def Authenticator.KeepsUrl (authenticate : Authenticator) : Prop :=
  ∀ service request, (authenticate service request).url = request.url

/-- Without credentials nothing is added. -/
theorem Authenticator.anonymous_keepsUrl : Authenticator.anonymous.KeepsUrl :=
  fun _ _ => rfl

/-- Declared credentials are added to the headers only. -/
theorem Authenticator.declared_keepsUrl : Authenticator.declared.KeepsUrl := by
  intro service request
  unfold declared
  split <;> rfl

namespace Service

variable {service : Service} {authenticate : Authenticator} {name : String}
  {arguments : Arguments} {strict : Bool} {prepared : Prepared}

/-- The base address without slashes at its end. -/
def base (service : Service) : List Char :=
  (service.baseUrl.toList.reverse.dropWhile (· == '/')).reverse

/-- The address of an endpoint is the base address, the filled template and a query. -/
theorem url_of_prepare (hkeeps : authenticate.KeepsUrl)
    (h : service.prepare authenticate name arguments strict = .ok prepared) {call : RestCall}
    (hcall : prepared.operation.call = .rest call) :
    ∃ r path query, service.resolve name arguments = .ok r ∧ r.operation = prepared.operation ∧
      Template.fill call.path r.effective = .ok path ∧ (∀ c ∈ query.head?, c = '?') ∧
      prepared.request.url.toList = service.base ++ path.toList ++ query := by
  obtain ⟨r, parts, hresolve, hparts, hoperation, hrequest⟩ := exists_of_prepare h
  rw [hoperation] at hcall
  have htemplate : r.operation.template? = some call.path := by
    rw [Operation.template?, hcall]
  -- Neither the content type nor the credentials touch the address.
  have hurl : prepared.request.url = service.address parts := by
    have htype : ∀ request : Request, request.withContentType.url = request.url := by
      intro request
      unfold Request.withContentType
      split <;> rfl
    rw [hrequest, hkeeps, htype, Service.request, hcall]
  rw [hurl, address]
  cases hquery : parts.queryString? with
  | none =>
      refine ⟨r, parts.path, [], hresolve, hoperation.symm,
        Arguments.fill_of_parts htemplate hparts, by simp, ?_⟩
      simp [base]
  | some query =>
      refine ⟨r, parts.path, '?' :: query.toList, hresolve, hoperation.symm,
        Arguments.fill_of_parts htemplate hparts, by simp, ?_⟩
      simp [base]

/-- The address of an endpoint is the base address, a path and what is no path. The segments of the
path are those of the template, and one that is a placeholder is the encoded form of its argument.
Where no placeholder makes a step, the steps of the path can be taken in the template, before it is
filled, and so its literal segments have the same places for all such arguments. The segments after
the first slash are segments of the address; `before` is what the base address has before them. -/
theorem segments_of_prepare (hkeeps : authenticate.KeepsUrl)
    (h : service.prepare authenticate name arguments strict = .ok prepared) {call : RestCall}
    (hcall : prepared.operation.call = .rest call) :
    ∃ r, service.resolve name arguments = .ok r ∧ r.operation = prepared.operation ∧
    (∃ path rest : List Char, prepared.request.url.toList = service.base ++ path ++ rest ∧
      (∀ c ∈ path, Http.endsPath c = false) ∧ (∀ c ∈ rest.head?, Http.endsPath c = true) ∧
      path.splitOnP Http.isSlash = (Template.segments call.path).map (·.text r.effective)) ∧
    (∀ placeholder, [.hole placeholder] ∈ Template.segments call.path →
      ∃ value, Dict.find? (String.ofList placeholder) r.effective = some value ∧
        value.isNull = false ∧
        value.StandsAs (Template.Segment.text r.effective [.hole placeholder])) ∧
    ((∀ segment ∈ (Template.segments call.path).tail, segment.isFixed = false →
        Http.step? (segment.text r.effective) = none) →
      ∀ before, Http.takeSteps before ((Template.segments call.path).tail.map (·.text r.effective))
        = (Http.walk Template.Segment.step? [] (before.map .ofText)
            (Template.segments call.path).tail).map (·.text r.effective)) := by
  obtain ⟨r, filled, query, hresolve, hoperation, hfill, hquery, hurl⟩ :=
    url_of_prepare hkeeps h hcall
  refine ⟨r, hresolve, hoperation, ?_, ?_, Template.takeSteps_text⟩
  · -- A question mark or hash in the template ends the path, and the query comes after that.
    refine ⟨filled.toList.takeWhile fun c => !Http.endsPath c,
      (filled.toList.dropWhile fun c => !Http.endsPath c) ++ query, ?_, ?_, ?_,
      Template.segments_of_fill hfill⟩
    · rw [hurl, List.append_assoc, List.append_assoc, ← List.append_assoc (List.takeWhile _ _),
        List.takeWhile_append_dropWhile]
    · intro c hc
      simpa using List.mem_takeWhile_imp hc
    · intro c hc
      have hend := List.head?_dropWhile_not (fun c => !Http.endsPath c) filled.toList
      cases hdrop : filled.toList.dropWhile fun c => !Http.endsPath c with
      | nil =>
          rw [hdrop, List.nil_append] at hc
          rw [hquery c hc]
          rfl
      | cons first others =>
          rw [hdrop] at hc hend
          obtain rfl := Option.some.inj hc
          simpa using hend
  · intro placeholder hplaceholder
    obtain ⟨value, hfind, hnull, htext⟩ := Template.exists_value_of_fill hfill hplaceholder
    refine ⟨value, hfind, hnull, ?_⟩
    rw [htext]
    exact Json.standsAs_percentEncode hnull

/-! ### The posts of a user -/

/-- The path of the posts of a user. -/
def postsPath : String :=
  "/users/\x7bid\x7d/posts"

/-- The path of the example has one placeholder. -/
theorem pieces_postsPath : Template.pieces postsPath.toList
    = [.literal "/users/".toList, .placeholder "id".toList, .literal "/posts".toList] := by
  have hopen : Text.cut? ['{'] postsPath.toList
      = some ("/users/".toList, "id\x7d/posts".toList) := rfl
  have hclose : Text.cut? ['}'] "id\x7d/posts".toList
      = some ("id".toList, "/posts".toList) := rfl
  rw [Template.pieces_eq_cons hopen hclose, Template.pieces_eq_literal rfl]
  rfl

/-- The placeholder is a segment of its own. -/
theorem segments_postsPath : Template.segments postsPath
    = [[], Template.Segment.ofText "users".toList, [.hole "id".toList],
        Template.Segment.ofText "posts".toList] := by
  rw [Template.segments, Template.route, Template.items, pieces_postsPath]
  rfl

/-- What a call for the posts of a user stands for. -/
def postsOf (id : String) : Resolution :=
  ⟨pathOperation postsPath, none, [("id", .string id)]⟩

/-- The request for them. -/
def postsPrepared (id : String) : Prepared where
  operation := pathOperation postsPath
  request := { method := .get, url := "http://h/users/" ++ Text.percentEncode id ++ "/posts" }

/-- The request that the posts of a user are prepared as. -/
theorem prepare_postsOf (id : String) :
    (pathService postsPath).prepare .anonymous "users" [("id", .string id)] false
      = .ok (postsPrepared id) := by
  have hlooked : Template.lookedUp postsPath = ["id"] := by
    rw [Template.lookedUp_eq_names, Template.names, pieces_postsPath]
    rfl
  have hexpected : Expected.ofOperation (pathOperation postsPath)
      = { entries := [("id", Expected.placeholder)] } := by
    rw [ofOperation_pathOperation hlooked]
    rfl
  have hfill : Template.fill postsPath [("id", .string id)]
      = .ok ("/users/" ++ Text.percentEncode id ++ "/posts") := by
    refine Template.fill_eq_ok_iff.mpr ⟨?_, ?_⟩
    · intro name hname
      rw [hlooked] at hname
      obtain rfl := List.mem_singleton.mp hname
      rfl
    · have hfind : Dict.find? (String.ofList "id".toList) [("id", Json.string id)]
          = some (.string id) := rfl
      have hfilled := Template.filled_placeholder hfind rfl
      rw [pieces_postsPath]
      simp only [List.map_cons, List.map_nil, String.join_cons, String.join_nil, hfilled]
      rw [String.append_assoc]
      rfl
  have hresolve : (pathService postsPath).resolve "users" [("id", .string id)]
      = .ok (postsOf id) := rfl
  have hrequire : (postsOf id).effective.require (.ofOperation (postsOf id).operation) false
      = .ok () := by
    rw [postsOf, hexpected]
    rfl
  have hparts : (postsOf id).parts
      = .ok { path := "/users/" ++ Text.percentEncode id ++ "/posts" } := by
    show Arguments.parts (pathOperation postsPath) (.ofOperation (pathOperation postsPath))
      [("id", .string id)] = _
    rw [Arguments.parts_of_fill rfl hfill, hexpected]
    rfl
  have hurl : (pathService postsPath).address
        { path := "/users/" ++ Text.percentEncode id ++ "/posts" }
      = (postsPrepared id).request.url := by
    show "http://h" ++ ("/users/" ++ Text.percentEncode id ++ "/posts") ++ "" = _
    rw [String.append_empty, ← String.append_assoc, ← String.append_assoc]
    rfl
  rw [prepare_of_parts hresolve hrequire hparts]
  exact congrArg (fun url => Except.ok (Prepared.mk _ (Request.mk .get url [] none))) hurl

/-- A blank id leaves a blank segment. -/
example : (postsPrepared "").request.url = "http://h/users//posts" := by
  decide +kernel

/-- The segment of the placeholder is the encoded id. -/
theorem text_hole_postsOf (id : String) :
    Template.Segment.text (postsOf id).effective [.hole "id".toList]
      = (Text.percentEncode id).toList := by
  have hfind : Dict.find? (String.ofList "id".toList) (postsOf id).effective
      = some (.string id) := rfl
  rw [Template.Segment.text, List.flatMap_singleton, Template.Item.filled,
    Template.filled_placeholder hfind rfl]
  rfl

/-- The segments of the path for an id, after the first slash. -/
theorem map_text_postsPath (id : String) :
    (Template.segments postsPath).tail.map (·.text (postsOf id).effective)
      = ["users".toList, (Text.percentEncode id).toList, "posts".toList] := by
  rw [segments_postsPath, List.tail_cons]
  simp only [List.map_cons, List.map_nil, Template.text_ofText, text_hole_postsOf]

/-- An id with a slash is one segment and no step. -/
theorem segments_of_postsPrepared :
    (Authenticator.anonymous.KeepsUrl ∧
      (pathService postsPath).prepare .anonymous "users" [("id", .string "../admin")] false
        = .ok (postsPrepared "../admin") ∧
      (postsPrepared "../admin").operation.call = .rest ⟨.get, postsPath⟩) ∧
    (Json.string "../admin").StandsAs "..%2Fadmin".toList ∧
    ∀ before, Http.takeSteps before ["users".toList, "..%2Fadmin".toList, "posts".toList]
      = before.reverse ++ ["users".toList, "..%2Fadmin".toList, "posts".toList] := by
  have hprepare := prepare_postsOf "../admin"
  have hcall : (postsPrepared "../admin").operation.call = .rest ⟨.get, postsPath⟩ := rfl
  obtain ⟨r, hresolve, -, -, hvalues, hsteps⟩ :=
    segments_of_prepare Authenticator.anonymous_keepsUrl hprepare hcall
  obtain rfl : postsOf "../admin" = r := Except.ok.inj hresolve
  have hencoded : Text.percentEncode "../admin" = "..%2Fadmin" := rfl
  have htexts := map_text_postsPath "../admin"
  rw [hencoded] at htexts
  refine ⟨⟨Authenticator.anonymous_keepsUrl, hprepare, hcall⟩, ?_, fun before => ?_⟩
  · obtain ⟨value, hfind, -, hstands⟩ := hvalues "id".toList (by
      rw [segments_postsPath]
      decide)
    obtain rfl : Json.string "../admin" = value := Option.some.inj hfind
    rw [text_hole_postsOf, hencoded] at hstands
    exact hstands
  · -- The one filled segment is the encoded text, and that is no step.
    have hfilled : ∀ segment ∈ (Template.segments postsPath).tail, segment.isFixed = false →
        Http.step? (segment.text (postsOf "../admin").effective) = none := by
      intro segment hmem _
      have htext := List.mem_map_of_mem (f := (·.text (postsOf "../admin").effective)) hmem
      rw [htexts] at htext
      revert htext
      generalize segment.text _ = text
      revert text
      decide
    have hfixed : ∀ segment ∈ (Template.segments postsPath).tail, segment.step? = none := by
      rw [segments_postsPath]
      decide
    have hkept := hsteps hfilled before
    rw [Http.walk_of_no_step hfixed, List.map_append, htexts, ← List.map_reverse, List.map_map]
      at hkept
    exact hkept.trans (congrArg (· ++ _) (List.map_id'' Template.text_ofText before.reverse))

/-- An id may be a step. Then the segment of the placeholder is not what the template has there,
and no literal segment of the template is in its place. -/
theorem not_segments_kept :
    ¬ ∀ (service : Service) (name : String) (arguments : Arguments) (strict : Bool)
      (prepared : Prepared) (call : RestCall) (r : Resolution), service.check = .ok () →
      service.prepare .anonymous name arguments strict = .ok prepared →
      prepared.operation.call = .rest call → service.resolve name arguments = .ok r →
      (∀ placeholder, [.hole placeholder] ∈ Template.segments call.path →
        ∀ special ∈ ["", ".", ".."],
          Template.Segment.text r.effective [.hole placeholder] ≠ special.toList) ∨
      (∀ (position : Nat) (segment : Template.Segment),
        (Template.segments call.path).tail[position]? = some segment →
        segment.isFixed = true →
        (Http.takeSteps [] ((Template.segments call.path).tail.map (·.text r.effective)))[position]?
          = some (segment.text r.effective)) := by
  intro h
  rcases h (pathService postsPath) "users" [("id", .string "..")] false (postsPrepared "..")
    ⟨.get, postsPath⟩ (postsOf "..") (check_pathService (by simp [postsPath]) [])
    (prepare_postsOf "..") rfl rfl with hplain | hplaces
  · refine hplain "id".toList ?_ ".." (by simp) ?_
    · rw [segments_postsPath]
      decide
    · exact text_hole_postsOf ".."
  · have hfirst := hplaces 0 (.ofText "users".toList) (by rw [segments_postsPath]; rfl) rfl
    rw [map_text_postsPath, Template.text_ofText] at hfirst
    revert hfirst
    decide

end Service
end DeclaredApi
