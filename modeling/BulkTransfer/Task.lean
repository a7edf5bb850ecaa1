import BulkTransfer.Clock
import BulkTransfer.Thrown.Retry

/-!
# Tasks and their results

A task moves one object: up from a local path, or down to it.  Its result says whether that worked,
what went wrong and how long it took.
-/

namespace BulkTransfer

/-- Which way an object moves. -/
inductive Direction where
  | upload
  | download
deriving DecidableEq

def Direction.word : Direction → Text
  | .upload => "upload"
  | .download => "download"

/-- The move of one object. -/
structure Task where
  container : Text
  objectName : Text
  localPath : Text
  direction : Direction
deriving DecidableEq

/-- What became of a task. -/
structure TransferResult where
  task : Task
  succeeded : Bool
  detail : Option FailureDetail
  duration : Time
deriving DecidableEq

namespace TransferResult

def success (task : Task) (duration : Time) : TransferResult := ⟨task, true, none, duration⟩

def failure (task : Task) (error : Thrown) (duration : Time) : TransferResult :=
  ⟨task, false, some error.failureDetail, duration⟩

/-- The result of a task that ended in one of the two ways. -/
def ofOutcome (task : Task) (outcome : Except Thrown Unit) (duration : Time) : TransferResult :=
  match outcome with
  | .ok _ => success task duration
  | .error e => failure task e duration

/-- Whether the task failed in a way that repeating may mend. -/
def isRetryable (r : TransferResult) : Bool := r.detail.any (·.retryable)

end TransferResult

end BulkTransfer
