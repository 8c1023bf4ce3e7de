import DeclaredApi.Client.Batch

/-!
# `DeclaredApi.Client.Encode`: outcomes as JSON

The results of calls and batches as JSON objects, in which an item of a batch has either
data or an error.
-/

set_option autoImplicit false

namespace DeclaredApi

/-- A successful call as JSON. -/
def Outcome.json (outcome : Outcome) : Json :=
  .ofMembers [("operation", .string outcome.operation), ("status", .ofNat outcome.status),
    ("cached", .bool outcome.cached), ("data", outcome.data)]

/-- An item of a batch as JSON. -/
def BatchItem.json (item : BatchItem) : Json :=
  .ofMembers (("index", .ofNat item.index) ::
    match item.result with
    | .ok data => [("ok", .bool true), ("data", data)]
    | .error message => [("ok", .bool false), ("error", .string message)])

/-- The results of a batch as JSON. -/
def BatchReport.json (report : BatchReport) : Json :=
  .ofMembers [("items", .array (report.items.map BatchItem.json)),
    ("succeeded", .ofNat report.succeeded), ("failed", .ofNat report.failed),
    ("stopped_early", .bool report.stoppedEarly)]

end DeclaredApi
