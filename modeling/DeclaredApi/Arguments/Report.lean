import DeclaredApi.Arguments.Expected
import DeclaredApi.Arguments.Merge

/-!
# `DeclaredApi.Arguments.Report`: checking arguments

A required argument must be there and not null, an argument must be declared, and a value
other than null must keep its schema. What is broken is an error, with two exceptions:
missing arguments only warn when the arguments are partial, and unknown ones only warn
unless the check is strict. The arguments are valid when there is no error.
-/

set_option autoImplicit false

namespace DeclaredApi

/-- What a check of arguments found. -/
structure Report where
  errors : List Finding := []
  warnings : List Finding := []
  /-- Required parameters without a value. -/
  missing : List String := []
  /-- Arguments that are no parameter. -/
  extra : List String := []

/-- Whether the arguments may be sent. -/
def Report.valid (report : Report) : Bool :=
  report.errors.isEmpty

/-- How strict a check is. -/
structure Strictness where
  /-- More arguments may follow, so missing ones only warn. -/
  partialArguments : Bool := false
  /-- Unknown arguments are errors. -/
  strict : Bool := false
deriving DecidableEq, Repr

/-- Whether a value has the kind. An integer is a number too. -/
def ValueKind.admits : ValueKind → Json → Bool
  | .string, .string _ => true
  | .number, .number _ => true
  | .integer, .number (.int _ _) => true
  | .boolean, .bool _ => true
  | .array, .array _ => true
  | .object, .object _ => true
  | _, _ => false

/-- How a value breaks a schema, if it does: by its kind, or else by not being allowed. -/
def Schema.breach? (schema : Schema) (name : String) (value : Json) : Option Finding :=
  if value.isNull then none
  else
    match schema.kind with
    | some kind => if kind.admits value then notAllowed? else some (.wrongKind name kind value)
    | none => notAllowed?
where
  /-- The breach of the list of allowed values. -/
  notAllowed? : Option Finding :=
    match schema.allowed with
    | some allowed =>
      if allowed.any (·.same value) then none else some (.notAllowed name allowed value)
    | none => none

namespace Arguments

/-- Whether the argument is there and not null. -/
def isGiven (arguments : Arguments) (name : String) : Bool :=
  (Dict.find? name arguments).any (¬ ·.isNull)

/-- How an argument breaks its schema, if it has one and does. -/
def breach? (expected : Expected) (argument : String × Json) : Option Finding := do
  let expectation ← expected.find? argument.1
  let schema ← expectation.schema
  schema.breach? argument.1 argument.2

/-- The finding about an argument when unknown arguments are errors. -/
def strictFinding? (expected : Expected) (argument : String × Json) : Option Finding :=
  match expected.find? argument.1 with
  | some _ => breach? expected argument
  | none => some (.unknown argument.1)

/-- The report on arguments for the expected parameters. -/
def check (expected : Expected) (arguments : Arguments) (strictness : Strictness) : Report :=
  let missing := expected.required.filter (¬ arguments.isGiven ·)
  let extra := (Dict.keys arguments).filter (expected.find? · |>.isNone)
  let absent := missing.map Finding.missing
  let unknown := extra.map Finding.unknown
  { missing, extra
    errors :=
      (if strictness.partialArguments then [] else absent) ++
        (if strictness.strict then arguments.filterMap (strictFinding? expected)
          else arguments.filterMap (breach? expected))
    warnings :=
      expected.findings ++ (if strictness.partialArguments then absent else []) ++
        (if strictness.strict then [] else unknown) }

end Arguments

/-- The reports on the preset arguments of every alias, by the alias's name. -/
def Service.checkAliasArguments (service : Service) (strict : Bool) : List (String × Report) :=
  service.aliases.filterMap fun a => do
    let op ← service.operation? a.operation
    let strictness : Strictness := { partialArguments := true, strict }
    return (a.name, Arguments.check (.ofOperation op) a.arguments strictness)

end DeclaredApi
