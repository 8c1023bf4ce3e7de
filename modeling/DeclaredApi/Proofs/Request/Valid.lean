import DeclaredApi.Proofs.Arguments.Expected
import DeclaredApi.Proofs.Client.Call
import DeclaredApi.Proofs.Service.Names

/-!
# `DeclaredApi.Proofs.Request.Valid`: valid arguments and the path

Arguments are looked at twice before a request is sent. `Arguments.check` reports on them, by the
parameters of the operation, and `Arguments.parts` fills the path from them, by the template. The
two ask for the same names, but for a placeholder with a blank name: it is no parameter, and yet
the path cannot be filled without an argument of the empty name
(`Operation.mem_placeholders_iff`).

* `exists_parts_iff_of_valid`: arguments that are valid fill the path, unless the path has a blank
  placeholder and no argument for it.
* `report_of_prepare`: for a service without blank placeholders, the path is filled whenever the
  arguments are valid, and every refusal of arguments carries the report of the check.
* `not_parts_of_valid`: an accepted service with a blank placeholder refuses arguments that the
  check finds valid.
-/

set_option autoImplicit false

namespace DeclaredApi

/-- The names that are looked up when the path of the operation is filled. -/
def Operation.pathNames (op : Operation Call) : List String :=
  (op.template?.map Template.lookedUp).getD []

/-- The names that are looked up are the placeholders, and maybe the blank name. -/
theorem Operation.mem_placeholders_iff {op : Operation Call} {name : String} :
    name ∈ op.placeholders ↔ name ∈ op.pathNames ∧ name ≠ "" := by
  unfold placeholders pathNames
  cases op.template? with
  | none => simp
  | some template => exact Template.mem_placeholders_iff

namespace Arguments

variable {op : Operation Call} {expected : Expected} {arguments : Arguments} {strict : Bool}

/-- Valid arguments give every required parameter. -/
theorem isGiven_of_valid (h : (arguments.check expected { strict }).valid = true) {name : String}
    (hrequired : name ∈ expected.required) : arguments.isGiven name = true := by
  have herrors := List.isEmpty_iff.mp h
  -- The missing parameters are among the errors, and there are none.
  have hmissing := (List.append_eq_nil_iff.mp herrors).1
  have hnone : expected.required.filter (fun name => ¬ arguments.isGiven name) = [] :=
    List.map_eq_nil_iff.mp hmissing
  simpa using List.filter_eq_nil_iff.mp hnone name hrequired

/-- The parts of a request are made when every name that is looked up is given. -/
theorem exists_parts_iff :
    (∃ parts, arguments.parts op expected = .ok parts) ↔
      ∀ name ∈ op.pathNames, arguments.isGiven name = true := by
  unfold parts Operation.pathNames
  cases op.template? with
  | none => exact ⟨fun _ => by simp, fun _ => ⟨_, rfl⟩⟩
  | some template =>
      show (∃ parts, (Template.fill template arguments).mapError unfilledReport >>= _ = .ok parts) ↔
        ∀ name ∈ Template.lookedUp template, arguments.isGiven name = true
      rw [Template.lookedUp_eq_names, Template.fill_eq]
      split
      · next hall => exact ⟨fun _ => hall, fun _ => ⟨_, rfl⟩⟩
      · next hmissing =>
          refine ⟨?_, fun hall => absurd hall hmissing⟩
          rintro ⟨_, hparts⟩
          cases hparts

/-- Valid arguments fill the path, unless it has a blank placeholder and no argument for that. -/
theorem exists_parts_iff_of_valid
    (hvalid : (arguments.check (.ofOperation op) { strict }).valid = true) :
    (∃ parts, arguments.parts op (.ofOperation op) = .ok parts) ↔
      ("" ∈ op.pathNames → arguments.isGiven "" = true) := by
  rw [exists_parts_iff]
  constructor
  · intro hall hblank
    exact hall "" hblank
  · intro hblank name hname
    by_cases hempty : name = ""
    · subst hempty
      exact hblank hname
    · -- A name that is not blank is a placeholder, and so a required parameter.
      have hplaceholder := Operation.mem_placeholders_iff.mpr ⟨hname, hempty⟩
      exact isGiven_of_valid hvalid (Expected.required_of_placeholder hplaceholder)

end Arguments

/-! ### Refused arguments -/

namespace Resolution

/-- The arguments that are checked and sent. -/
def effective (r : Resolution) : Arguments :=
  Arguments.merge r.operation.defaults r.arguments

/-- The report on the arguments. -/
def report (r : Resolution) (strict : Bool) : Report :=
  r.effective.check (.ofOperation r.operation) { strict }

/-- The arguments in the parts of a request. -/
def parts (r : Resolution) : Except Report RequestParts :=
  r.effective.parts r.operation (.ofOperation r.operation)

variable {r : Resolution} {strict : Bool}

/-- Arguments with a valid report pass. -/
theorem require_of_valid (h : (r.report strict).valid = true) :
    r.effective.require (.ofOperation r.operation) strict = .ok () :=
  if_pos h

/-- Arguments with another report are refused with it. -/
theorem require_of_invalid (h : (r.report strict).valid = false) :
    ∃ help, r.effective.require (.ofOperation r.operation) strict
      = .error (.invalidArguments (r.report strict) help) :=
  ⟨_, if_neg (by simpa [report] using h)⟩

end Resolution

namespace Service

variable {service : Service} {authenticate : Authenticator} {name : String}
  {arguments : Arguments} {strict : Bool} {report : Report} {help : Option (List String)}

/-- Arguments are refused by the check, or else because the path cannot be filled. -/
theorem refused_cases
    (h : service.prepare authenticate name arguments strict
      = .error (.invalidArguments report help)) :
    ∃ r, service.resolve name arguments = .ok r ∧
      (((r.report strict).valid = false ∧ report = r.report strict) ∨
        ((r.report strict).valid = true ∧ r.parts = .error report)) := by
  unfold prepare at h
  cases hresolve : service.resolve name arguments with
  | error e =>
      rw [hresolve] at h
      -- A name without a meaning is another error.
      obtain rfl : e = .invalidArguments report help := Except.error.inj h
      unfold resolve at hresolve
      split at hresolve
      · split at hresolve <;> cases hresolve
      · cases hresolve
      · cases hresolve
  | ok r =>
      rw [hresolve] at h
      change (r.effective.require (.ofOperation r.operation) strict >>= _) = _ at h
      refine ⟨r, rfl, ?_⟩
      cases hvalid : (r.report strict).valid with
      | false =>
          obtain ⟨_, hrequire⟩ := Resolution.require_of_invalid hvalid
          rw [hrequire] at h
          cases h
          exact Or.inl ⟨rfl, rfl⟩
      | true =>
          rw [Resolution.require_of_valid hvalid] at h
          change (r.parts.mapError _ >>= _) = _ at h
          refine Or.inr ⟨rfl, ?_⟩
          cases hparts : r.parts with
          | error refused =>
              rw [hparts] at h
              cases h
              rfl
          | ok parts =>
              rw [hparts] at h
              cases h

/-- Arguments that the check finds invalid are refused with its report. -/
theorem prepare_of_invalid {r : Resolution} (hresolve : service.resolve name arguments = .ok r)
    (hinvalid : (r.report strict).valid = false) :
    ∃ help, service.prepare authenticate name arguments strict
      = .error (.invalidArguments (r.report strict) help) := by
  obtain ⟨help, hrequire⟩ := Resolution.require_of_invalid hinvalid
  refine ⟨help, ?_⟩
  unfold prepare
  rw [hresolve]
  show (r.effective.require (.ofOperation r.operation) strict >>= _) = _
  rw [hrequire]
  rfl

/-- In a service without blank placeholders the check decides: valid arguments fill the path, what
is refused is refused with the report of the check, and the names that are looked up to fill a path
are its placeholders. -/
theorem report_of_prepare (hnamed : ∀ op ∈ service.operations, "" ∉ op.pathNames)
    (authenticate : Authenticator) (name : String) (arguments : Arguments) (strict : Bool) :
    (∀ r, service.resolve name arguments = .ok r → (r.report strict).valid = true →
      ∃ parts, r.parts = .ok parts) ∧
    (∀ report help, service.prepare authenticate name arguments strict
        = .error (.invalidArguments report help) →
      ∃ r, service.resolve name arguments = .ok r ∧ (r.report strict).valid = false ∧
        report = r.report strict) ∧
    ∀ op ∈ service.operations, ∀ looked, looked ∈ op.pathNames ↔ looked ∈ op.placeholders := by
  have hfills : ∀ r, service.resolve name arguments = .ok r → (r.report strict).valid = true →
      ∃ parts, r.parts = .ok parts := by
    intro r hresolve hvalid
    have hmem : r.operation ∈ service.operations :=
      List.mem_of_find?_eq_some (resolve_operation hresolve)
    -- A valid report leaves one way to fail: a blank name, which the report does not look at.
    refine (Arguments.exists_parts_iff_of_valid hvalid).mpr fun hblank => ?_
    exact absurd hblank (hnamed _ hmem)
  refine ⟨hfills, ?_, ?_⟩
  · intro report help hrefused
    obtain ⟨r, hresolve, ⟨hvalid, hreport⟩ | ⟨hvalid, hparts⟩⟩ := refused_cases hrefused
    · exact ⟨r, hresolve, hvalid, hreport⟩
    · obtain ⟨parts, hfilled⟩ := hfills r hresolve hvalid
      cases hparts.symm.trans hfilled
  · intro op hmem looked
    rw [Operation.mem_placeholders_iff]
    constructor
    · intro hlooked
      refine ⟨hlooked, ?_⟩
      rintro rfl
      exact hnamed op hmem hlooked
    · exact And.left

/-- An endpoint that reads users on the given path. -/
def pathOperation (path : String) (parameters : List Parameter := []) : Operation Call :=
  { name := "users", call := .rest ⟨.get, path⟩, parameters }

/-- A service with that endpoint. -/
def pathService (path : String) (parameters : List Parameter := []) : Service :=
  { name := "svc", baseUrl := "http://h"
    endpoints := [{ name := "users", call := ⟨.get, path⟩, parameters }] }

/-- A path must start with a slash, and the rules ask for nothing else about it. -/
theorem check_pathService {path : String} (h : path.startsWith "/" = true)
    (parameters : List Parameter) : (pathService path parameters).check = .ok () := by
  have hblank : Text.isBlankString "svc" = false ∧ Text.isBlankString "users" = false := by
    decide
  refine check_of_operations_eq rfl rfl hblank.1 (by simp [pathService]) ?_
  refine Operation.check_eq_ok_iff.mpr ⟨hblank.2, fun _ hpath => ?_, fun hcached => ?_⟩
  · cases hpath
    exact h
  · cases hcached

/-- A template with a name between its braces. -/
theorem pieces_named : Template.pieces "/users/\x7bid\x7d".toList
    = [.literal "/users/".toList, .placeholder "id".toList, .literal []] := by
  have hopen : Text.cut? ['{'] "/users/\x7bid\x7d".toList
      = some ("/users/".toList, "id\x7d".toList) := rfl
  have hclose : Text.cut? ['}'] "id\x7d".toList = some ("id".toList, []) := rfl
  rw [Template.pieces_eq_cons hopen hclose, Template.pieces_eq_literal rfl]
  rfl

/-- A template with nothing between its braces. -/
theorem pieces_blank : Template.pieces "/users/\x7b\x7d".toList
    = [.literal "/users/".toList, .placeholder [], .literal []] := by
  have hopen : Text.cut? ['{'] "/users/\x7b\x7d".toList
      = some ("/users/".toList, "\x7d".toList) := rfl
  have hclose : Text.cut? ['}'] "\x7d".toList = some ([], []) := rfl
  rw [Template.pieces_eq_cons hopen hclose, Template.pieces_eq_literal rfl]
  rfl

/-- The name is looked up. -/
theorem lookedUp_named : Template.lookedUp "/users/\x7bid\x7d" = ["id"] := by
  rw [Template.lookedUp_eq_names, Template.names, pieces_named]
  rfl

/-- The empty name is looked up, too. -/
theorem lookedUp_blank : Template.lookedUp "/users/\x7b\x7d" = [""] := by
  rw [Template.lookedUp_eq_names, Template.names, pieces_blank]
  rfl

/-- The endpoint expects what it declares and what is looked up for its path. -/
theorem ofOperation_pathOperation {path : String} {looked : List String}
    (h : Template.lookedUp path = looked) (parameters : List Parameter) :
    Expected.ofOperation (pathOperation path parameters)
      = parameters.foldl (Expected.declare "users" (looked.filter (¬ ·.isEmpty)).eraseDups)
          { entries := Dict.ofList ((looked.filter (¬ ·.isEmpty)).eraseDups.map fun name =>
              (name, Expected.placeholder)) } := by
  subst h
  rw [← Template.placeholders_eq_lookedUp]
  rfl

/-- A blank placeholder asks for no parameter. -/
theorem ofOperation_blank : Expected.ofOperation (pathOperation "/users/\x7b\x7d") = {} := by
  rw [ofOperation_pathOperation lookedUp_blank]
  rfl

/-- What a call for a user without an id stands for. -/
def missingId : Resolution :=
  ⟨pathOperation "/users/\x7bid\x7d", none, []⟩

/-- A call without the id is reported as one that misses it. -/
theorem report_missingId :
    (missingId.report false).valid = false ∧ (missingId.report false).missing = ["id"] := by
  have hexpected : Expected.ofOperation missingId.operation
      = { entries := [("id", Expected.placeholder)] } := by
    rw [missingId, ofOperation_pathOperation lookedUp_named]
    rfl
  unfold Resolution.report
  rw [hexpected]
  exact ⟨rfl, rfl⟩

/-- A user without an id is refused with the report of the check. -/
theorem report_of_missingId :
    (∀ op ∈ (pathService "/users/\x7bid\x7d").operations, "" ∉ op.pathNames) ∧
    ∃ report help, (pathService "/users/\x7bid\x7d").prepare .anonymous "users" [] false
        = .error (.invalidArguments report help) ∧
      report.missing = ["id"] ∧
      ∃ r, (pathService "/users/\x7bid\x7d").resolve "users" [] = .ok r ∧
        (r.report false).valid = false ∧ report = r.report false := by
  have hnamed : ∀ op ∈ (pathService "/users/\x7bid\x7d").operations, "" ∉ op.pathNames := by
    intro op hmem
    obtain rfl : op = pathOperation "/users/\x7bid\x7d" := List.mem_singleton.mp hmem
    show "" ∉ Template.lookedUp "/users/\x7bid\x7d"
    rw [lookedUp_named]
    decide
  have hresolve : (pathService "/users/\x7bid\x7d").resolve "users" [] = .ok missingId := rfl
  obtain ⟨hinvalid, hmissing⟩ := report_missingId
  obtain ⟨help, hrefused⟩ := prepare_of_invalid hresolve hinvalid
  exact ⟨hnamed, _, help, hrefused, hmissing,
    (report_of_prepare hnamed .anonymous "users" [] false).2.1 _ help hrefused⟩

/-- Arguments of an accepted service may be valid and not fill the path. -/
theorem not_parts_of_valid :
    ¬ ∀ service : Service, service.check = .ok () → ∀ name arguments strict r,
      service.resolve name arguments = .ok r → (r.report strict).valid = true →
        ∃ parts, r.parts = .ok parts := by
  intro h
  have hvalid :
      (Resolution.report ⟨pathOperation "/users/\x7b\x7d", none, []⟩ false).valid = true := by
    unfold Resolution.report
    rw [ofOperation_blank]
    rfl
  have hparts := h (pathService "/users/\x7b\x7d") (check_pathService (by simp) []) "users" [] false
    ⟨pathOperation "/users/\x7b\x7d", none, []⟩ rfl hvalid
  -- The blank name is looked up, and there are no arguments at all.
  have hgiven := (Arguments.exists_parts_iff_of_valid hvalid).mp hparts (by
    show "" ∈ Template.lookedUp "/users/\x7b\x7d"
    rw [lookedUp_blank]
    exact List.mem_cons_self)
  cases hgiven

end Service
end DeclaredApi
