import DeclaredApi.Client.Basic

/-!
# `DeclaredApi.Client.Batch`: calling an operation for many inputs

A batch calls one operation for each input, in order, and collects an item for each: the
data of a success or the message of a failure. A batch that fails fast stops after its first
failure. Time goes on while a batch runs, so each of its calls has times of its own.
-/

set_option autoImplicit false

namespace DeclaredApi

/-- What a batch has for one input. -/
structure BatchItem where
  index : Nat
  result : Except String Json

/-- What a batch has for its inputs. -/
structure BatchReport where
  items : List BatchItem := []
  succeeded : Nat := 0
  failed : Nat := 0
  /-- Whether it stopped at a failure. -/
  stoppedEarly : Bool := false

/-- The report with one more item. -/
def BatchReport.add (report : BatchReport) (result : Except String Json) : BatchReport :=
  let items := report.items ++ [{ index := report.items.length, result }]
  match result with
  | .ok _ => { report with items, succeeded := report.succeeded + 1 }
  | .error _ => { report with items, failed := report.failed + 1 }

/-- The report after the calls of the remaining inputs. The call for the item at an index is
made at the times that the clock has for the index. -/
def Client.batchFrom (authenticate : Authenticator) (service : Service) (clock : Nat → CallTimes)
    (options : CallOptions) (name : String) (failFast : Bool) (report : BatchReport) :
    List Arguments → Client → BatchReport × Client
  | [], client => (report, client)
  | arguments :: rest, client =>
    match client.call authenticate service (clock report.items.length) options name arguments with
    | (.ok outcome, client) =>
      batchFrom authenticate service clock options name failFast (report.add (.ok outcome.data))
        rest client
    | (.error e, client) =>
      let report := report.add (.error e.message)
      if failFast then ({ report with stoppedEarly := true }, client)
      else batchFrom authenticate service clock options name failFast report rest client

/-- Calls `name` once for each of the inputs, at the times of the clock. -/
def Client.batchOver (client : Client) (authenticate : Authenticator) (service : Service)
    (clock : Nat → CallTimes) (options : CallOptions) (name : String) (failFast : Bool)
    (inputs : List Arguments) : BatchReport × Client :=
  batchFrom authenticate service clock options name failFast {} inputs client

/-- Calls `name` once for each of the inputs, all at the time `now`. -/
def Client.batch (client : Client) (authenticate : Authenticator) (service : Service)
    (now : Int64) (options : CallOptions) (name : String) (failFast : Bool)
    (inputs : List Arguments) : BatchReport × Client :=
  client.batchOver authenticate service (fun _ => now) options name failFast inputs

end DeclaredApi
