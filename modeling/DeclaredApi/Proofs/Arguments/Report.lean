import DeclaredApi.Proofs.Arguments.Expected
import DeclaredApi.Proofs.Except
import DeclaredApi.Request.Prepare
import Mathlib.Algebra.Order.Group.Multiset
import Mathlib.Tactic.Abel

/-!
# `DeclaredApi.Proofs.Arguments.Report`: one report in four modes

A check of arguments has two switches. One decides whether a missing argument is an error or a
warning, the other decides the same of an unknown argument, and all else is common to the four
modes: what is missing, what is unknown, which arguments break their schemas, and the errors and
warnings taken together (`findings_check`). So arguments that pass with more errors pass with fewer,
and the request that is made of them does not depend on the mode (`prepare_lenient`).

`Report.Tells` says what a report tells about arguments, in words of the parameters and not of the
loops that look for it: a schema is broken as `Schema.Broken` says, by the kind of the value first
and by the list of allowed values otherwise. `report_in_every_mode` puts all of it together.
-/

set_option autoImplicit false

namespace DeclaredApi

/-! ### Broken schemas -/

/-- How a value breaks a schema. -/
inductive Schema.Broken (schema : Schema) (name : String) (value : Json) : Finding → Prop where
  /-- The value is of another kind. -/
  | kind {kind : ValueKind} (hkind : schema.kind = some kind) (hvalue : kind.admits value = false) :
    Broken schema name value (.wrongKind name kind value)
  /-- The value is of the right kind, or of any kind where none is asked for, and it is none of the
  allowed ones. -/
  | allowed {allowed : List Json}
    (hkind : ∀ kind, schema.kind = some kind → kind.admits value = true)
    (hallowed : schema.allowed = some allowed)
    (hvalue : ∀ other ∈ allowed, other.same value = false) :
    Broken schema name value (.notAllowed name allowed value)

/-- The test for null as a proposition. -/
theorem Json.isNull_eq_false_iff {j : Json} : j.isNull = false ↔ j ≠ .null := by
  cases j <;> simp [Json.isNull]

namespace Schema

variable {schema : Schema} {name : String} {value : Json} {finding : Finding}

/-- A value of the right kind breaks the schema where the list of allowed values is broken. -/
theorem notAllowed?_eq_some_iff
    (hkind : ∀ kind, schema.kind = some kind → kind.admits value = true) :
    breach?.notAllowed? schema name value = some finding ↔ schema.Broken name value finding := by
  unfold breach?.notAllowed?
  constructor
  · intro h
    cases hallowed : schema.allowed with
    | none =>
        rw [hallowed] at h
        cases h
    | some allowed =>
        rw [hallowed] at h
        obtain ⟨hnone, rfl⟩ : (∀ other ∈ allowed, other.same value = false) ∧
            .notAllowed name allowed value = finding := by simpa using h
        exact .allowed hkind hallowed hnone
  · intro h
    cases h with
    | kind hother hvalue =>
        rw [hkind _ hother] at hvalue
        cases hvalue
    | allowed _ hallowed hvalue =>
        rw [hallowed]
        simpa using hvalue

/-- A breach is found for a value that breaks the schema. Null breaks none. -/
theorem breach?_eq_some_iff :
    schema.breach? name value = some finding ↔
      value ≠ .null ∧ schema.Broken name value finding := by
  unfold breach?
  rw [← Json.isNull_eq_false_iff]
  cases value.isNull with
  | true => simp
  | false =>
      simp only [Bool.false_eq_true, if_false, true_and]
      cases hkind : schema.kind with
      | none =>
          have hany : ∀ kind, schema.kind = some kind → kind.admits value = true := by
            intro kind hsome
            cases hkind.symm.trans hsome
          show breach?.notAllowed? schema name value = some finding ↔ _
          exact notAllowed?_eq_some_iff hany
      | some kind =>
          show (if kind.admits value then _ else _) = _ ↔ _
          cases hadmits : kind.admits value with
          | true =>
              have hright : ∀ other, schema.kind = some other → other.admits value = true := by
                intro other hother
                cases hkind.symm.trans hother
                exact hadmits
              exact notAllowed?_eq_some_iff hright
          | false =>
              constructor
              · intro h
                cases h
                exact .kind hkind hadmits
              · intro h
                -- The kind is looked at first, so there is no other breach.
                cases h with
                | kind hother _ =>
                    cases hkind.symm.trans hother
                    rfl
                | allowed hright _ _ =>
                    rw [hright kind hkind] at hadmits
                    cases hadmits

end Schema

namespace Arguments

/-- An argument breaks the schema of its parameter. -/
def Breaks (expected : Expected) (name : String) (value : Json) (finding : Finding) : Prop :=
  ∃ expectation schema, expected.find? name = some expectation ∧
    expectation.schema = some schema ∧ value ≠ .null ∧ schema.Broken name value finding

variable {expected : Expected} {arguments : Arguments} {name : String} {value : Json}
  {finding : Finding}

/-- The finding about an argument is the one that the description of the breach gives. -/
theorem breach?_eq_some_iff :
    breach? expected (name, value) = some finding ↔ Breaks expected name value finding := by
  simp only [breach?, Breaks, Option.bind_eq_bind, Option.bind_eq_some_iff,
    Schema.breach?_eq_some_iff]
  grind

/-! ### The findings of a check -/

/-- The findings about arguments that break their schemas. -/
def breachFindings (expected : Expected) (arguments : Arguments) : List Finding :=
  arguments.filterMap (breach? expected)

/-- The findings about required parameters without a value. -/
def missingFindings (expected : Expected) (arguments : Arguments) : List Finding :=
  (expected.required.filter (¬ arguments.isGiven ·)).map .missing

/-- The findings about arguments without a parameter. -/
def unknownFindings (expected : Expected) (arguments : Arguments) : List Finding :=
  ((Dict.keys arguments).filter (expected.find? · |>.isNone)).map .unknown

/-- A strict look at the arguments finds those that break their schemas and those without a
parameter. -/
theorem filterMap_strictFinding? (expected : Expected) (arguments : Arguments) :
    (arguments.filterMap (strictFinding? expected)).Perm
      (breachFindings expected arguments ++ unknownFindings expected arguments) := by
  induction arguments with
  | nil => exact .nil
  | cons argument rest ih =>
      obtain ⟨name, value⟩ := argument
      unfold breachFindings at ih ⊢
      cases hfind : expected.find? name with
      | some expectation =>
          have hunknown : unknownFindings expected ((name, value) :: rest)
              = unknownFindings expected rest := by
            simp [unknownFindings, Dict.keys, hfind]
          have hstrict :
              strictFinding? expected (name, value) = breach? expected (name, value) := by
            simp [strictFinding?, hfind]
          rw [hunknown, List.filterMap_cons, List.filterMap_cons, hstrict]
          cases breach? expected (name, value) with
          | none => exact ih
          | some finding => exact ih.cons finding
      | none =>
          have hunknown : unknownFindings expected ((name, value) :: rest)
              = .unknown name :: unknownFindings expected rest := by
            simp [unknownFindings, Dict.keys, hfind]
          have hstrict : strictFinding? expected (name, value) = some (.unknown name) := by
            simp [strictFinding?, hfind]
          -- An argument without a parameter has no schema to break.
          have hbreach : breach? expected (name, value) = none := by simp [breach?, hfind]
          rw [hunknown, List.filterMap_cons_some hstrict, List.filterMap_cons_none hbreach]
          exact (ih.cons _).trans List.perm_middle.symm

/-- The errors of a check are the breaches, and what the mode makes an error. -/
theorem errors_check (expected : Expected) (arguments : Arguments) (mode : Strictness) :
    (arguments.check expected mode).errors.Perm
      ((if mode.partialArguments then [] else missingFindings expected arguments) ++
        (breachFindings expected arguments ++
          if mode.strict then unknownFindings expected arguments else [])) := by
  refine List.Perm.append_left _ ?_
  cases mode.strict with
  | true => exact filterMap_strictFinding? expected arguments
  | false =>
      show (arguments.filterMap (breach? expected)).Perm (breachFindings expected arguments ++ [])
      rw [List.append_nil]
      exact .refl _

/-- The errors and warnings of a check, taken together, are the same in every mode. -/
theorem findings_check (expected : Expected) (arguments : Arguments) (mode : Strictness) :
    ((arguments.check expected mode).errors ++ (arguments.check expected mode).warnings).Perm
      (expected.findings ++ missingFindings expected arguments ++
        breachFindings expected arguments ++ unknownFindings expected arguments) := by
  refine ((errors_check expected arguments mode).append_right _).trans ?_
  have hwarnings : (arguments.check expected mode).warnings = expected.findings ++
      (if mode.partialArguments then missingFindings expected arguments else []) ++
      (if mode.strict then [] else unknownFindings expected arguments) := rfl
  -- As multisets, the two sides have the same parts, whatever the switches are.
  rw [hwarnings, ← Multiset.coe_eq_coe]
  simp only [← Multiset.coe_add]
  cases mode.partialArguments <;> cases mode.strict <;>
    simp only [if_true, if_false, Bool.false_eq_true, Multiset.coe_nil] <;> abel

/-- Arguments are valid when no error is left of the breaches and of what the mode makes an
error. -/
theorem valid_check_iff (expected : Expected) (arguments : Arguments) (mode : Strictness) :
    (arguments.check expected mode).valid = true ↔
      breachFindings expected arguments = [] ∧
      (missingFindings expected arguments = [] ∨ mode.partialArguments = true) ∧
      (unknownFindings expected arguments = [] ∨ mode.strict = false) := by
  rw [Report.valid, List.isEmpty_iff, ← List.perm_nil,
    (errors_check expected arguments mode).congr_left, List.perm_nil]
  cases mode.partialArguments <;> cases mode.strict <;> simp <;> tauto

end Arguments

/-! ### What a report tells -/

/-- What a report tells about arguments, in a mode.

- `missing`: it lists the required names whose argument is absent or null, in order;
- `extra`: it lists the names of the arguments without a parameter, in order;
- `valid`: the arguments may be sent when none breaks its schema, none is missing or the arguments
  are partial, and none is unknown or the check is not strict. -/
structure Report.Tells (expected : Expected) (arguments : Arguments) (mode : Strictness)
    (report : Report) : Prop where
  sortedMissing : report.missing.Pairwise (· < ·)
  missing : ∀ name, name ∈ report.missing ↔
    (∃ e, expected.find? name = some e ∧ e.required = true) ∧
      ∀ value, Dict.find? name arguments = some value → value = .null
  sortedExtra : report.extra.Pairwise (· < ·)
  extra : ∀ name, name ∈ report.extra ↔
    (∃ value, Dict.find? name arguments = some value) ∧ expected.find? name = none
  valid : report.valid = true ↔
    (∀ name value finding, Dict.find? name arguments = some value →
      ¬ Arguments.Breaks expected name value finding) ∧
    (report.missing = [] ∨ mode.partialArguments = true) ∧
    (report.extra = [] ∨ mode.strict = false)

namespace Arguments

variable {arguments : Arguments} {name : String}

/-- An argument that is not given is absent or null. -/
theorem not_isGiven_iff :
    ¬ arguments.isGiven name = true ↔
      ∀ value, Dict.find? name arguments = some value → value = .null := by
  rw [isGiven_iff]
  simp only [Json.isNull_eq_false_iff, not_exists, not_and, not_not]

/-- Nothing is found exactly if no argument breaks what is expected of it. -/
theorem breachFindings_eq_nil_iff (expected : Expected) (hsorted : Dict.Sorted arguments) :
    breachFindings expected arguments = [] ↔
      ∀ name value finding, Dict.find? name arguments = some value →
        ¬ Breaks expected name value finding := by
  simp only [breachFindings, List.filterMap_eq_nil_iff, Prod.forall,
    Option.eq_none_iff_forall_ne_some, ne_eq, breach?_eq_some_iff, Dict.find?_eq_some_iff hsorted]
  exact forall₂_congr fun _ _ => forall_comm

/-- A check tells what it should about sorted arguments, in every mode. -/
theorem tells_check (op : Operation Call) (hsorted : Dict.Sorted arguments) (mode : Strictness) :
    (arguments.check (.ofOperation op) mode).Tells (.ofOperation op) arguments mode where
  sortedMissing :=
    (Dict.pairwise_keys (Dict.sorted_filter (Expected.sorted_entries op) _)).filter _
  missing name := by
    show name ∈ (Expected.ofOperation op).required.filter (¬ arguments.isGiven ·) ↔ _
    rw [List.mem_filter, Expected.mem_required_iff, decide_eq_true_eq, not_isGiven_iff]
  sortedExtra := (Dict.pairwise_keys hsorted).filter _
  extra name := by
    show name ∈ (Dict.keys arguments).filter _ ↔ _
    rw [List.mem_filter, Option.isNone_iff_eq_none, ← Dict.isSome_find?_iff,
      Option.isSome_iff_exists]
  valid := by
    rw [valid_check_iff, breachFindings_eq_nil_iff _ hsorted, missingFindings, unknownFindings,
      List.map_eq_nil_iff, List.map_eq_nil_iff]
    rfl

/-- Arguments that a strict check lets pass, a lenient one lets pass too. -/
theorem require_lenient {expected : Expected} (h : arguments.require expected true = .ok ()) :
    arguments.require expected false = .ok () := by
  have hstrict : (arguments.check expected { strict := true }).valid = true := by
    by_contra hinvalid
    unfold require at h
    rw [if_neg hinvalid] at h
    cases h
  refine if_pos ?_
  rw [valid_check_iff] at hstrict ⊢
  exact ⟨hstrict.1, hstrict.2.1, Or.inr rfl⟩

end Arguments

/-- What is prepared in strict mode is prepared in lenient mode, with the same request. -/
theorem Service.prepare_lenient {service : Service} {authenticate : Authenticator} {name : String}
    {arguments : Arguments} {prepared : Prepared}
    (h : service.prepare authenticate name arguments true = .ok prepared) :
    service.prepare authenticate name arguments false = .ok prepared := by
  obtain ⟨resolution, hresolve, h⟩ := exists_of_bind_ok h
  obtain ⟨_, hrequire, h⟩ := exists_of_bind_ok h
  unfold prepare
  rw [hresolve]
  show (Arguments.require _ _ false >>= _) = _
  rw [Arguments.require_lenient hrequire]
  -- What comes after the check does not look at the mode.
  exact h

/-- A check of the arguments of an operation, in its four modes.

In each mode the report tells what is missing, what is unknown and whether the arguments may be
sent. What is missing, what is unknown, and the errors and warnings taken together are the same in
all modes. A request that is prepared in strict mode is prepared in lenient mode too. -/
theorem Arguments.report_in_every_mode (op : Operation Call) {arguments : Arguments}
    (hsorted : Dict.Sorted arguments) :
    (∀ mode, (arguments.check (.ofOperation op) mode).Tells (.ofOperation op) arguments mode)
      ∧ (∀ mode mode',
          let report := arguments.check (.ofOperation op) mode
          let report' := arguments.check (.ofOperation op) mode'
          report.missing = report'.missing ∧ report.extra = report'.extra ∧
            (report.errors ++ report.warnings).Perm (report'.errors ++ report'.warnings))
      ∧ ∀ (service : Service) authenticate name caller prepared,
          service.prepare authenticate name caller true = .ok prepared →
            service.prepare authenticate name caller false = .ok prepared := by
  refine ⟨tells_check op hsorted, ?_, ?_⟩
  · intro mode mode'
    -- The lists of names are not made with a look at the mode.
    refine ⟨rfl, rfl, ?_⟩
    exact (findings_check _ arguments mode).trans (findings_check _ arguments mode').symm
  · intro service authenticate name caller prepared
    exact Service.prepare_lenient

/-- A search for issues of an owner, open or closed ones. -/
def searchOperation : Operation Call :=
  { name := "search", call := .graphql ⟨.query, "search"⟩
    parameters := [{ name := "owner", slot := .body, required := true },
      { name := "state", slot := .body
        schema := some
          { kind := some .string, allowed := some [.string "open", .string "closed"] } }] }

/-- A service with that search. -/
def searchService : Service :=
  { name := "svc", baseUrl := "http://h"
    graphqlOperations := [{ name := "search", call := ⟨.query, "search"⟩
                            parameters := searchOperation.parameters }] }

/-- Arguments with a null for the owner, a state that is not allowed, and an unknown one. -/
def mergedSearch : Arguments :=
  [("owner", .null), ("sort", .bool true), ("state", .string "merged")]

/-- The request that searches for all issues of an owner. -/
def ownerSearch : Prepared where
  operation := searchOperation
  request := {
    method := .post
    url := "http://h"
    headers := [("Content-Type", "application/json")]
    body := some (.object [("query", .string "search"),
      ("variables", .object [("owner", .string "ada")])]) }

/-- What the report on a faulty search tells, and a search that passes in both modes. -/
theorem report_of_mergedSearch :
    Dict.Sorted mergedSearch ∧
    (mergedSearch.check (.ofOperation searchOperation) { strict := true }).missing = ["owner"] ∧
    (mergedSearch.check (.ofOperation searchOperation) { strict := true }).extra = ["sort"] ∧
    (mergedSearch.check (.ofOperation searchOperation) { strict := true }).Tells
      (.ofOperation searchOperation) mergedSearch { strict := true } ∧
    searchService.prepare .anonymous "search" [("owner", .string "ada")] true = .ok ownerSearch ∧
    searchService.prepare .anonymous "search" [("owner", .string "ada")] false
      = .ok ownerSearch := by
  have hsorted : Dict.Sorted mergedSearch := by
    unfold Dict.Sorted mergedSearch
    decide
  have hprepare : searchService.prepare .anonymous "search" [("owner", .string "ada")] true
      = .ok ownerSearch := rfl
  obtain ⟨htells, -, hlenient⟩ := Arguments.report_in_every_mode searchOperation hsorted
  exact ⟨hsorted, by decide, by decide, htells { strict := true }, hprepare,
    hlenient searchService .anonymous "search" _ _ hprepare⟩

end DeclaredApi
