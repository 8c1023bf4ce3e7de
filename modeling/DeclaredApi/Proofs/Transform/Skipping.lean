import DeclaredApi.Proofs.Except
import DeclaredApi.Transform.Pipeline
import Mathlib.Data.List.Induction

/-!
# `DeclaredApi.Proofs.Transform.Skipping`: a pipeline without its broken steps

Whether a step of a pipeline fails depends on the value that reaches it (`reaching`), and so on all
steps before it, those that failed among them. `sound` lists the steps that do not fail there.

Failures are counted on top of those from before (`foldl_next`), so a pipeline of two parts is the
second part on the value of the first one, with the failures of both (`pipeline_append`). The rest
goes by induction from the last step, for the values that reach the others do not depend on it
(`sound_concat`): the sound steps by themselves come to the value of the pipeline without a failure
(`foldlM_sound`), and all others are failures (`failures_add_length_sound`). `pipeline_sound` is the
whole law.
-/

set_option autoImplicit false

namespace DeclaredApi

/-- The value that reaches the step at an index of a pipeline. -/
def reaching (steps : List TransformStep) (data : Json) (index : Nat) : Json :=
  (pipeline (steps.take index) data).value

/-- The steps of a pipeline that succeed on the value that reaches them, in order. -/
def sound (steps : List TransformStep) (data : Json) : List TransformStep :=
  (steps.zipIdx.filter fun (step, index) => (step.apply (reaching steps data index)).isOk).map (·.1)

variable {step : TransformStep} {data value : Json}

/-! ### One more step -/

/-- A step that succeeds goes on with its value. -/
theorem Reshaped.next_of_ok {before : Reshaped} (h : step.apply before.value = .ok value) :
    before.next step = { before with value } := by
  rw [next, h]

/-- A step that fails goes on with the value before it and is counted. -/
theorem Reshaped.next_of_error {before : Reshaped} {e : TransformError}
    (h : step.apply before.value = .error e) :
    before.next step = { before with failures := before.failures + 1 } := by
  rw [next, h]

/-- The last step comes after all others. -/
theorem pipeline_concat (steps : List TransformStep) (last : TransformStep) (data : Json) :
    pipeline (steps ++ [last]) data = (pipeline steps data).next last :=
  List.foldl_append

/-- The last step comes to the sound ones, if it is sound. -/
theorem sound_concat (steps : List TransformStep) (last : TransformStep) (data : Json) :
    sound (steps ++ [last]) data
      = sound steps data
        ++ if (last.apply (pipeline steps data).value).isOk then [last] else [] := by
  have hlast : reaching (steps ++ [last]) data steps.length = (pipeline steps data).value := by
    rw [reaching, List.take_left]
  -- What reaches one of the others depends on the steps before it alone.
  have hothers : ∀ entry ∈ steps.zipIdx,
      (entry.1.apply (reaching (steps ++ [last]) data entry.2)).isOk
        = (entry.1.apply (reaching steps data entry.2)).isOk := by
    intro entry hmem
    have hlt : entry.2 < steps.length := by simpa using List.snd_lt_of_mem_zipIdx hmem
    rw [reaching, List.take_append_of_le_length (Nat.le_of_lt hlt), reaching]
  rw [sound, List.zipIdx_append, List.filter_append, List.map_append, sound,
    List.filter_congr hothers]
  congr 1
  simp only [List.zipIdx_singleton, Nat.zero_add, List.filter_cons, hlast, List.filter_nil]
  split <;> rfl

/-! ### Pipelines of two parts -/

/-- Failures are counted on top of those from before, and change nothing else. -/
theorem foldl_next (steps : List TransformStep) (data : Json) (count : Nat) :
    steps.foldl Reshaped.next { value := data, failures := count }
      = { value := (pipeline steps data).value
          failures := count + (pipeline steps data).failures } := by
  induction steps using List.reverseRecOn with
  | nil => rfl
  | append_singleton steps last ih =>
      rw [List.foldl_append, ih, List.foldl_cons, List.foldl_nil, pipeline_concat]
      cases happly : last.apply (pipeline steps data).value with
      | ok value =>
          rw [Reshaped.next_of_ok happly]
          exact Reshaped.next_of_ok happly
      | error e =>
          rw [Reshaped.next_of_error happly]
          exact Reshaped.next_of_error happly

/-- A pipeline of two parts is the second part on the value of the first one. -/
theorem pipeline_append (first second : List TransformStep) (data : Json) :
    pipeline (first ++ second) data
      = { value := (pipeline second (pipeline first data).value).value
          failures := (pipeline first data).failures
            + (pipeline second (pipeline first data).value).failures } := by
  rw [pipeline, List.foldl_append]
  exact foldl_next second (pipeline first data).value (pipeline first data).failures

/-! ### The sound steps alone -/

/-- Steps that succeed one after the other are a pipeline without failures. -/
theorem pipeline_of_foldlM {steps : List TransformStep}
    (h : steps.foldlM (fun value step => step.apply value) data = .ok value) :
    pipeline steps data = { value } := by
  induction steps generalizing data with
  | nil =>
      cases h
      rfl
  | cons step rest ih =>
      rw [List.foldlM_cons] at h
      obtain ⟨next, hnext, h⟩ := exists_of_bind_ok h
      rw [pipeline, List.foldl_cons, Reshaped.next_of_ok hnext]
      exact ih h

/-- The sound steps succeed one after the other, and come to the value of the pipeline. -/
theorem foldlM_sound (steps : List TransformStep) (data : Json) :
    (sound steps data).foldlM (fun value step => step.apply value) data
      = .ok (pipeline steps data).value := by
  induction steps using List.reverseRecOn with
  | nil => rfl
  | append_singleton steps last ih =>
      rw [sound_concat, List.foldlM_append, ih, pipeline_concat]
      cases happly : last.apply (pipeline steps data).value with
      | ok value =>
          rw [Reshaped.next_of_ok happly]
          show (last.apply (pipeline steps data).value >>= pure) = _
          rw [happly]
          rfl
      | error e =>
          rw [Reshaped.next_of_error happly]
          rfl

/-- A step of a pipeline is sound, or it is a failure. -/
theorem failures_add_length_sound (steps : List TransformStep) (data : Json) :
    (pipeline steps data).failures + (sound steps data).length = steps.length := by
  induction steps using List.reverseRecOn with
  | nil => rfl
  | append_singleton steps last ih =>
      rw [sound_concat, pipeline_concat, List.length_append, List.length_append]
      cases happly : last.apply (pipeline steps data).value with
      | ok value =>
          rw [Reshaped.next_of_ok happly, ← Nat.add_assoc, ih]
          rfl
      | error e =>
          rw [Reshaped.next_of_error happly, Nat.add_right_comm, ← ih]
          rfl

/-- The result of a pipeline is that of its sound steps alone, each of which succeeds there too, and
all its other steps are failures. Wherever the pipeline is cut, its second part goes on from the
value of the first one, and the failures add up. -/
theorem pipeline_sound (steps : List TransformStep) (data : Json) :
    pipeline (sound steps data) data = { value := (pipeline steps data).value } ∧
    (sound steps data).foldlM (fun value step => step.apply value) data
      = .ok (pipeline steps data).value ∧
    (pipeline steps data).failures + (sound steps data).length = steps.length ∧
    ∀ count,
      let before := pipeline (steps.take count) data
      let after := pipeline (steps.drop count) before.value
      pipeline steps data
        = { value := after.value, failures := before.failures + after.failures } := by
  have hsound := foldlM_sound steps data
  refine ⟨pipeline_of_foldlM hsound, hsound, failures_add_length_sound steps data, ?_⟩
  intro count before after
  have hparts := pipeline_append (steps.take count) (steps.drop count) data
  rwa [List.take_append_drop] at hparts

end DeclaredApi
