import BulkTransfer.Task

/-!
# The outcome of a batch

The results of a batch, counted, with the failed ones and the tasks worth repeating picked out in
their order.
-/

namespace BulkTransfer

/-- Results with their counts and selections. -/
structure Outcome where
  results : List TransferResult
  total : Nat
  successCount : Nat
  failureCount : Nat
  failures : List TransferResult
  retryableTasks : List Task

namespace Outcome

def ofResults (results : List TransferResult) : Outcome :=
  let failures := results.filter fun r => !r.succeeded
  { results
    total := results.length
    successCount := results.length - failures.length
    failureCount := failures.length
    failures
    retryableTasks := (failures.filter TransferResult.isRetryable).map TransferResult.task }

def summary (o : Outcome) : Text :=
  let note : Text :=
    if o.retryableTasks.isEmpty then []
    else " (" ++ Text.ofNat o.retryableTasks.length ++ " retryable)"
  Text.ofNat o.total ++ " tasks: " ++ Text.ofNat o.successCount ++ " succeeded, " ++
    Text.ofNat o.failureCount ++ " failed" ++ note

end Outcome

end BulkTransfer
