import DeclaredApi.Transform.Extract
import DeclaredApi.Transform.Rename

/-!
# `DeclaredApi.Transform.Pipeline`: a chain of steps

A step keeps the fields it lists and then renames (`TransformStep.apply`). In a pipeline the
result of each step is the input of the next; a step that fails is passed over, so the value
it was given goes on, and the failures are counted.
-/

set_option autoImplicit false

namespace DeclaredApi

namespace TransformStep

/-- The result of the step on a value. An empty list of fields or rules does nothing. -/
def apply (step : TransformStep) (data : Json) : Except TransformError Json := do
  let data ←
    match step.fields with
    | none | some [] => .ok data
    | some fields => data.extract (fields.map String.toList)
  match step.rename with
  | none | some [] => .ok data
  | some rules => data.renamed (rules.map fun rule => (rule.source.toList, rule.target.toList))

/-- The result of the step, or the value itself where the step fails. -/
def transform (step : TransformStep) (data : Json) : Json :=
  match step.apply data with
  | .ok result => result
  | .error _ => data

end TransformStep

/-- What a pipeline makes of a value. -/
structure Reshaped where
  value : Json
  /-- How many steps failed. -/
  failures : Nat := 0
deriving Repr

/-- The value after one more step. -/
def Reshaped.next (before : Reshaped) (step : TransformStep) : Reshaped :=
  match step.apply before.value with
  | .ok value => { before with value }
  | .error _ => { before with failures := before.failures + 1 }

/-- The value after the steps, in order. -/
def pipeline (steps : List TransformStep) (data : Json) : Reshaped :=
  steps.foldl Reshaped.next { value := data }

end DeclaredApi
