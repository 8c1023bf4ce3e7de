import DeclaredApi.Path.Place

/-!
# `DeclaredApi.Transform.Basic`: steps that reshape a response

A transform step keeps the listed fields of a response, or all of it when it lists none, and
then renames. An operation declares one step or a chain of them. Rename rules keep the order
and the repetitions they are written with, for each rule sees what the earlier ones made.
-/

set_option autoImplicit false

namespace DeclaredApi

/-- A rename rule: what is at the path `source` goes to the path `target`. -/
structure RenameRule where
  source : String
  target : String
deriving DecidableEq, Repr

/-- One step of a transform. -/
structure TransformStep where
  /-- The paths to keep; none, or an empty list, keeps everything. -/
  fields : Option (List String) := none
  rename : Option (List RenameRule) := none
deriving DecidableEq, Repr

/-- The transform of an operation. -/
inductive TransformSpec where
  | chain (steps : List TransformStep)
  | single (step : TransformStep)
deriving DecidableEq, Repr

/-- The steps of a transform, in order. -/
def TransformSpec.steps : TransformSpec → List TransformStep
  | .chain steps => steps
  | .single step => [step]

/-- What makes a step fail. -/
inductive TransformError where
  /-- A value could not be put at its path. -/
  | path (e : PathError)
  /-- A rule moves a value from one array into another, or from an array out of it. -/
  | wildcardPrefixes (source target : String)
deriving DecidableEq, Repr

/-- The message of a failed step. -/
def TransformError.message : TransformError → String
  | .path e => e.message
  | .wildcardPrefixes source target =>
    "cannot rename '" ++ source ++ "' to '" ++ target ++ "': wildcard prefixes differ"

/-- The value with `value` at the path, as a part of a step. -/
def Json.placed (root : Json) (path : List Char) (value : Json) : Except TransformError Json :=
  (root.assigned path value).mapError .path

end DeclaredApi
