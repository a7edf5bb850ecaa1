import BulkTransfer.Event
import BulkTransfer.Task

/-!
# Jobs and observers

A job is a task together with the operation that carries it out over some world.  Calling the
operation either ends at once, or waits on the clock and then does all of its work in one go.  An
observer hears of each finished task and may itself fail.
-/

namespace BulkTransfer

/-- How a called operation goes on: it throws at once, it is refused and fails without waiting, or
it waits and then finishes. -/
inductive Launch (σ : Type) where
  | throws (error : Thrown)
  | refused (error : Thrown)
  | waits (delay : Time) (finish : σ → Except Thrown Unit × σ)

/-- A task and its operation. -/
structure Job (σ : Type) where
  task : Task
  call : σ → Launch σ × σ

/-- An operation that does not look at the world. -/
inductive Behaviour where
  | throws (error : Thrown)
  | settles (delay : Time) (outcome : Except Thrown Unit)

def Job.behaving {σ : Type} (task : Task) (behaviour : Behaviour) : Job σ :=
  { task
    call := fun world =>
      match behaviour with
      | .throws error => (.throws error, world)
      | .settles delay outcome => (.waits delay fun w => (outcome, w), world) }

/-- What an observer is told: a result, how many tasks have finished out of how many, and the
time. -/
structure Report where
  result : TransferResult
  completed : Nat
  total : Nat
  time : Time

/-- What an observer does: the events it causes and what it throws. -/
structure Notice where
  events : List Event
  error : Option Thrown

/-- A listener with a state of its own. -/
structure Observer (τ : Type) where
  state : τ
  react : Report → τ → Notice × τ

namespace Observer

def silent : Observer Unit := ⟨(), fun _ _ => (⟨[], none⟩, ())⟩

/-- The observer that records each report, and throws at some counts. -/
def recording (error : Nat → Option Thrown) : Observer Unit :=
  { state := ()
    react := fun report _ =>
      (⟨[.progress report.result.task.objectName report.result.succeeded report.completed
          report.total report.time], error report.completed⟩, ()) }

end Observer

end BulkTransfer
