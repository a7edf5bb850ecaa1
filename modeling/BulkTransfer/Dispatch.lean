import BulkTransfer.Concurrency
import BulkTransfer.Pool
import BulkTransfer.Ran

/-!
# Dispatching a batch

A batch of jobs goes through a worker pool.  It is refused only for a concurrency that is not
finite; otherwise each job gets its result, whatever the operations and the observer throw.
-/

namespace BulkTransfer

/-- What dispatching leaves, with the greatest number of operations that waited at once. -/
structure Dispatch (σ : Type) extends Ran σ (List TransferResult) where
  peak : Nat

namespace Dispatch

variable {σ τ : Type}

def openingLine (tasks workers : Nat) : Event :=
  .log ("Dispatching " ++ Text.ofNat tasks ++ " tasks across " ++ Text.ofNat workers ++ " workers")

def closingLine (time : Time) (results : List TransferResult) : Event :=
  let failed := (results.filter fun r => !r.succeeded).length
  .log ("Batch finished in " ++ time.text ++ "ms: " ++ Text.ofNat (results.length - failed) ++
    " succeeded, " ++ Text.ofNat failed ++ " failed")

/-- The pool of a batch at its end. -/
def pool (clock : Clock) (world : σ) (observer : Observer τ) (jobs : List (Job σ))
    (workers : Nat) : Pool σ τ :=
  (Pool.start clock world observer jobs workers).run

/-- Runs jobs by a clock with a given concurrency. -/
def run (clock : Clock) (jobs : List (Job σ)) (concurrency : Number) (observer : Observer τ)
    (world : σ) : Dispatch σ :=
  if jobs.isEmpty then ⟨⟨.ok [], world, []⟩, 0⟩
  else
    match Concurrency.normalize concurrency with
    | .error error => ⟨⟨.error error, world, []⟩, 0⟩
    | .ok (count, warning) =>
      let workers := min count jobs.length
      let final := pool clock world observer jobs workers
      { outcome := .ok final.results
        world := final.world
        events := warning.toList.map Event.warn ++ [openingLine jobs.length workers] ++
          final.events ++ [closingLine final.now final.results]
        peak := final.peak }

end Dispatch

end BulkTransfer
