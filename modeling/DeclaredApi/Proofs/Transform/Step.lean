import DeclaredApi.Proofs.Except
import DeclaredApi.Transform.Pipeline

/-!
# `DeclaredApi.Proofs.Transform.Step`: the two halves of a step

A step reduces a value to its fields and then renames (`TransformStep.apply_eq`). A half that
lists nothing does nothing (`reduce_eq_ok`, `relabel_eq_ok`), so a step of fields alone is an
extraction (`apply_fields`) and a step of rules alone a renaming (`apply_rename`).
Where either half puts a value at a path, it assigns it (`placed_eq_ok_iff`).
-/

set_option autoImplicit false

namespace DeclaredApi

/-- A step puts a value at a path exactly where it can be assigned there. -/
theorem Json.placed_eq_ok_iff {root value placed : Json} {path : List Char} :
    root.placed path value = .ok placed ↔ root.assigned path value = .ok placed := by
  unfold Json.placed
  cases root.assigned path value with
  | error e =>
      constructor
      · intro h
        cases h
      · intro h
        cases h
  | ok written =>
      constructor
      · intro h
        exact congrArg Except.ok (Except.ok.inj h)
      · intro h
        exact congrArg Except.ok (Except.ok.inj h)

namespace TransformStep

variable {step : TransformStep} {data : Json}

/-- The value reduced to the fields of the step, if it lists any. -/
def reduce (step : TransformStep) (data : Json) : Except TransformError Json :=
  match step.fields with
  | none | some [] => .ok data
  | some fields => data.extract (fields.map String.toList)

/-- The value with the rules of the step applied, if it lists any. -/
def relabel (step : TransformStep) (data : Json) : Except TransformError Json :=
  match step.rename with
  | none | some [] => .ok data
  | some rules => data.renamed (rules.map fun rule => (rule.source.toList, rule.target.toList))

/-- Without fields the data are not reduced. -/
theorem reduce_eq_ok (h : step.fields.getD [] = []) (data : Json) :
    step.reduce data = .ok data := by
  obtain ⟨fields, rename⟩ := step
  match fields with
  | none => rfl
  | some [] => rfl
  | some (field :: rest) => cases h

/-- With fields they are reduced to what the fields extract. -/
theorem reduce_eq_extract {fields : List String} (h : step.fields = some fields)
    (hne : fields ≠ []) (data : Json) :
    step.reduce data = data.extract (fields.map String.toList) := by
  rw [reduce, h]
  cases fields with
  | nil => exact absurd rfl hne
  | cons field rest => rfl

/-- The paths of the rules. -/
def pathPairs (rules : List RenameRule) : List PathPair :=
  rules.map fun rule => (rule.source.toList, rule.target.toList)

/-- Without rules nothing is renamed. -/
theorem relabel_eq_ok (h : step.rename.getD [] = []) (data : Json) :
    step.relabel data = .ok data := by
  obtain ⟨fields, rename⟩ := step
  match rename with
  | none => rfl
  | some [] => rfl
  | some (rule :: rest) => cases h

/-- With rules the data are renamed by them. -/
theorem relabel_eq_renamed {rules : List RenameRule} (h : step.rename = some rules)
    (hne : rules ≠ []) (data : Json) : step.relabel data = data.renamed (pathPairs rules) := by
  rw [relabel, h]
  cases rules with
  | nil => exact absurd rfl hne
  | cons rule rest => rfl

/-- A step reduces first and renames then. -/
theorem apply_eq (step : TransformStep) (data : Json) :
    step.apply data = step.reduce data >>= step.relabel := by
  obtain ⟨fields, rename⟩ := step
  match fields with
  | none => rfl
  | some [] => rfl
  | some (field :: rest) => rfl

/-- A step of fields alone is an extraction. -/
theorem apply_fields {fields : List String} (h : fields ≠ []) (data : Json) :
    TransformStep.apply { fields := some fields } data
      = data.extract (fields.map String.toList) := by
  rw [apply_eq, reduce_eq_extract rfl h]
  cases data.extract (fields.map String.toList) <;> rfl

/-- A step of rules alone is a renaming. -/
theorem apply_rename {rules : List RenameRule} (h : rules ≠ []) (data : Json) :
    TransformStep.apply { rename := some rules } data = data.renamed (pathPairs rules) :=
  relabel_eq_renamed rfl h data

end TransformStep
end DeclaredApi
