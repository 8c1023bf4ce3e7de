import DeclaredApi.Client.Batch
import Mathlib.Data.List.Induction

/-!
# `DeclaredApi.Proofs.Client.Batch`: a batch is its calls, one after the other

`Client.answers` are the answers to calls for a list of inputs, each made on the client that the
calls before it leave (`Client.afterCalls`). They know nothing of batches and do not stop. A batch
makes all of these calls, or those up to the first failure if it fails fast (`callsMade`), and
reports on them.

One round of the loop of a batch makes one call, adds its item and stops or goes on
(`batchFrom_cons`), as `callsMade` does with the answers (`callsMade_cons`). So both are compared
from the first input on, for any report that there is so far (`batchFrom_eq`). What a report has for
a list of answers is told from the last one (`addAll_empty`). `batch_eq_calls` is the law.
-/

set_option autoImplicit false

namespace DeclaredApi

/-! ### Calls and answers -/

/-- What a batch has for an answer: its data, or the message of its error. -/
def resultOf (answer : Except CallError Outcome) : Except String Json :=
  match answer with
  | .ok outcome => .ok outcome.data
  | .error e => .error e.message

/-- The answers that a batch gets of those to all of its inputs: all, or if it fails fast those
before the first failure, and that failure. -/
def callsMade (failFast : Bool) (answers : List (Except CallError Outcome)) :
    List (Except CallError Outcome) :=
  if failFast then answers.takeWhile (·.isOk) ++ (answers.dropWhile (·.isOk)).take 1 else answers

/-- A batch stops at a failure, if it fails fast. -/
theorem callsMade_cons (failFast : Bool) (answer : Except CallError Outcome)
    (rest : List (Except CallError Outcome)) :
    callsMade failFast (answer :: rest)
      = answer :: if failFast && ¬ answer.isOk then [] else callsMade failFast rest := by
  cases failFast <;> cases hok : answer.isOk <;> simp [callsMade, hok]

namespace Client

variable (authenticate : Authenticator) (service : Service) (clock : Nat → CallTimes)
  (options : CallOptions) (name : String)

/-- The client after a call for each of the inputs, one after the other. -/
def afterCalls (client : Client) (inputs : List Arguments) : Client :=
  inputs.zipIdx.foldl (fun client (arguments, index) =>
    (client.call authenticate service (clock index) options name arguments).2) client

/-- The answers to the calls for the inputs, each made on the client after those before it. -/
def answers (client : Client) (inputs : List Arguments) : List (Except CallError Outcome) :=
  inputs.zipIdx.map fun (arguments, index) =>
    ((client.afterCalls authenticate service clock options name (inputs.take index)).call
      authenticate service (clock index) options name arguments).1

variable {authenticate service clock options name} {client after : Client}
  {arguments : Arguments} {answer : Except CallError Outcome}

/-- The first call is done first, and the others go on with the client and the clock after it. -/
theorem afterCalls_cons
    (h : client.call authenticate service (clock 0) options name arguments = (answer, after))
    (rest : List Arguments) :
    client.afterCalls authenticate service clock options name (arguments :: rest)
      = after.afterCalls authenticate service (fun index => clock (index + 1)) options name
          rest := by
  rw [afterCalls, afterCalls, List.zipIdx_cons, List.foldl_cons, List.zipIdx_succ, List.foldl_map]
  simp only [h]

/-- The first answer comes first, and the others are those of the client after it. -/
theorem answers_cons
    (h : client.call authenticate service (clock 0) options name arguments = (answer, after))
    (rest : List Arguments) :
    client.answers authenticate service clock options name (arguments :: rest)
      = answer :: after.answers authenticate service (fun index => clock (index + 1)) options name
          rest := by
  have hfirst : client.afterCalls authenticate service clock options name [] = client := rfl
  rw [answers, answers, List.zipIdx_cons, List.map_cons, List.zipIdx_succ, List.map_map]
  refine congrArg₂ List.cons ?_ (List.map_congr_left fun entry _ => ?_)
  · simp only [List.take_zero, hfirst, h]
  · simp only [Function.comp, List.take_succ_cons, afterCalls_cons h]

end Client

/-! ### Reports -/

namespace BatchReport

/-- The report with an item for each of the answers. -/
def addAll (report : BatchReport) (answers : List (Except CallError Outcome)) : BatchReport :=
  answers.foldl (fun report answer => report.add (resultOf answer)) report

/-- A report takes up one item for each result. -/
theorem length_items_add (report : BatchReport) (result : Except String Json) :
    (report.add result).items.length = report.items.length + 1 := by
  cases result <;> simp [add]

/-- Taking up a result does not stop a batch. -/
theorem stoppedEarly_add (report : BatchReport) (result : Except String Json) :
    (report.add result).stoppedEarly = report.stoppedEarly := by
  cases result <;> rfl

/-- What a report has for a list of answers. -/
theorem addAll_empty (answers : List (Except CallError Outcome)) :
    addAll {} answers = {
      items := answers.mapIdx fun index answer => { index, result := resultOf answer }
      succeeded := answers.countP (·.isOk)
      failed := answers.countP (¬ ·.isOk) } := by
  induction answers using List.reverseRecOn with
  | nil => rfl
  | append_singleton answers last ih =>
      rw [addAll] at ih
      rw [addAll, List.foldl_append, ih, List.mapIdx_concat, List.countP_append, List.countP_append]
      cases last <;> simp [add, resultOf, Except.isOk, Except.toBool]

end BatchReport

/-! ### The loop of a batch -/

section

variable {authenticate : Authenticator} {service : Service} {clock : Nat → CallTimes}
  {options : CallOptions} {name : String}

/-- A round of the loop makes a call, and goes on unless there is a reason to stop. -/
theorem batchFrom_cons {report : BatchReport} {client after : Client} {arguments : Arguments}
    {answer : Except CallError Outcome} (failFast : Bool)
    (h : client.call authenticate service (clock report.items.length) options name arguments
      = (answer, after)) (rest : List Arguments) :
    Client.batchFrom authenticate service clock options name failFast report (arguments :: rest)
        client
      = if failFast && ¬ answer.isOk then
          ({ report.add (resultOf answer) with stoppedEarly := true }, after)
        else Client.batchFrom authenticate service clock options name failFast
          (report.add (resultOf answer)) rest after := by
  rw [Client.batchFrom, h]
  cases answer with
  | ok outcome => simp [resultOf, Except.isOk, Except.toBool]
  | error e => simp [resultOf, Except.isOk, Except.toBool]

/-- The loop of a batch makes the calls that are made without it, until it stops. -/
theorem batchFrom_eq (failFast : Bool) (report : BatchReport) (inputs : List Arguments)
    (client : Client) :
    let later := fun index => clock (report.items.length + index)
    let answers := callsMade failFast
      (client.answers authenticate service later options name inputs)
    Client.batchFrom authenticate service clock options name failFast report inputs client
      = ({ report.addAll answers with
            stoppedEarly := report.stoppedEarly || (failFast && answers.any (¬ ·.isOk)) },
          client.afterCalls authenticate service later options name
            (inputs.take answers.length)) := by
  induction inputs generalizing report client with
  | nil =>
      have hnone : callsMade failFast [] = [] := by
        cases failFast <;> rfl
      simp only [Client.answers, List.zipIdx_nil, List.map_nil, hnone]
      simp [Client.batchFrom, BatchReport.addAll, Client.afterCalls]
  | cons arguments rest ih =>
      intro later answers
      rcases hcall : client.call authenticate service (later 0) options name arguments
        with ⟨answer, after⟩
      -- The calls for the rest are made at the times that come after this one.
      have hlater : (fun index => later (index + 1))
          = fun index => clock ((report.add (resultOf answer)).items.length + index) := by
        funext index
        rw [BatchReport.length_items_add, Nat.add_assoc, Nat.add_comm 1 index]
      have hanswers : answers = answer :: _ :=
        (congrArg (callsMade failFast) (Client.answers_cons hcall rest)).trans
          (callsMade_cons failFast ..)
      rw [batchFrom_cons failFast hcall, hanswers, List.length_cons, List.take_succ_cons,
        Client.afterCalls_cons hcall, List.any_cons]
      by_cases hstop : (failFast && ¬ answer.isOk) = true
      · obtain ⟨rfl, hfailed⟩ := Bool.and_eq_true_iff.mp hstop
        rw [if_pos hstop, if_pos hstop, hfailed, Bool.true_or, Bool.and_true, Bool.or_true]
        rfl
      · have hgo : (failFast && ¬ answer.isOk) = false := Bool.eq_false_iff.mpr hstop
        rw [if_neg hstop, if_neg hstop, ih, hlater, BatchReport.stoppedEarly_add,
          Bool.and_or_distrib_left, hgo, Bool.false_or]
        rfl

/-- What a batch reports and leaves. -/
theorem batchOver_eq (client : Client) (failFast : Bool) (inputs : List Arguments) :
    let answers := callsMade failFast
      (client.answers authenticate service clock options name inputs)
    client.batchOver authenticate service clock options name failFast inputs
      = ({ items := answers.mapIdx fun index answer => { index, result := resultOf answer }
           succeeded := answers.countP (·.isOk)
           failed := answers.countP (¬ ·.isOk)
           stoppedEarly := failFast && answers.any (¬ ·.isOk) },
          client.afterCalls authenticate service clock options name
            (inputs.take answers.length)) := by
  have hclock : (fun index => clock (([] : List BatchItem).length + index)) = clock := by
    funext index
    rw [List.length_nil, Nat.zero_add]
  have hrun : client.batchOver authenticate service clock options name failFast inputs = _ :=
    batchFrom_eq failFast {} inputs client
  rw [hrun, hclock, BatchReport.addAll_empty, Bool.false_or]

end

/-! ### The law -/

/-- A call is a success in the report exactly if it is answered. -/
theorem isOk_resultOf (answer : Except CallError Outcome) :
    (resultOf answer).isOk = answer.isOk := by
  cases answer <;> rfl

/-- The items of a batch tell which of its calls have succeeded. -/
theorem countP_items (wanted : Bool → Bool) (answers : List (Except CallError Outcome)) :
    (answers.mapIdx fun index answer => BatchItem.mk index (resultOf answer)).countP
        (wanted ·.result.isOk) = answers.countP (wanted ·.isOk) := by
  have hanswers := List.zipIdx_map_fst 0 answers
  calc _ = answers.zipIdx.countP fun entry => wanted entry.1.isOk := by
        simp only [List.mapIdx_eq_zipIdx_map, List.countP_map, Function.comp_def, isOk_resultOf]
    _ = (answers.zipIdx.map Prod.fst).countP (wanted ·.isOk) := by
        rw [List.countP_map, Function.comp_def]
    _ = answers.countP (wanted ·.isOk) := by rw [hanswers]

/-- A batch is its calls, one after the other.

Without failing fast it makes all of them, and else those up to the first failure. Its items are
numbered from zero and have the data or the message of the answers, it leaves the client as these
calls do, its counts are those of its items, and it has stopped early if it fails fast and one of
the calls that it made has failed. -/
theorem Client.batch_eq_calls (client : Client) (authenticate : Authenticator) (service : Service)
    (clock : Nat → CallTimes) (options : CallOptions) (name : String) (failFast : Bool)
    (inputs : List Arguments) :
    let answers := client.answers authenticate service clock options name inputs
    let calls := callsMade failFast answers
    let (report, after) :=
      client.batchOver authenticate service clock options name failFast inputs
    (report.items = calls.mapIdx fun index answer => { index, result := resultOf answer })
      ∧ after = client.afterCalls authenticate service clock options name
          (inputs.take calls.length)
      ∧ report.succeeded = report.items.countP (·.result.isOk)
      ∧ report.failed = report.items.countP (¬ ·.result.isOk)
      ∧ report.succeeded + report.failed = report.items.length
      ∧ (failFast = false → report.items.length = inputs.length)
      ∧ (report.stoppedEarly = true ↔ failFast = true ∧ ∃ answer ∈ calls, ¬ answer.isOk) := by
  intro answers calls
  rw [batchOver_eq]
  change _ = _ ∧ _ = _ ∧ List.countP _ calls = _ ∧ List.countP _ calls = _ ∧
    List.countP _ calls + List.countP _ calls = _ ∧ _ ∧ (_ ↔ _)
  refine ⟨rfl, rfl, ?succeeded, ?failed, ?total, ?all, ?early⟩
  case succeeded => exact (countP_items id calls).symm
  case failed => exact (countP_items (fun ok => ¬ ok) calls).symm
  case total =>
    rw [List.length_mapIdx]
    exact (List.length_eq_countP_add_countP _).symm
  case all =>
    intro hall
    rw [List.length_mapIdx, hall, callsMade, if_neg Bool.false_ne_true, Client.answers,
      List.length_map, List.length_zipIdx]
  case early => simp [calls, answers]

end DeclaredApi
