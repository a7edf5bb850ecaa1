import BulkTransfer.Proofs.Dispatch.Behaviours
import BulkTransfer.Proofs.Dispatch.Telling
import Mathlib.Data.List.Forall2

/-!
# The outcome of a batch of operations

The outcome of a batch is read off its results alone.  Each result is the record of the operation of
its task (`Recorded`), so what the outcome selects are the results and the tasks of the operations
that failed, and of those that failed in a way that repeating may mend (`Recorded.failures`,
`Recorded.retryableTasks`).  The tasks to send again are those of the batch, none of them changed
(`Dispatch.run_outcome`).
-/

namespace BulkTransfer

namespace Behaviour

/-- Whether an operation fails. -/
def fails (b : Behaviour) : Bool := b.error?.isSome

/-- Whether an operation fails in a way that repeating may mend. -/
def failsForNow (b : Behaviour) : Bool := b.error?.any Thrown.isRetryable

variable (b : Behaviour) (task : Task) (duration : Time)

theorem not_succeeded_record : (!(b.record task duration).succeeded) = b.fails := by
  unfold record fails
  cases b.error? <;> rfl

theorem isRetryable_record : (b.record task duration).isRetryable = b.failsForNow := by
  unfold record failsForNow TransferResult.isRetryable
  cases b.error? <;> rfl

theorem fails_and_failsForNow : (b.fails && b.failsForNow) = b.failsForNow := by
  unfold fails failsForNow
  cases b.error? <;> rfl

end Behaviour

/-- Results stand at the places of the tasks whose operations they are the records of. -/
def Recorded : List TransferResult → List (Task × Behaviour) → Prop :=
  List.Forall₂ fun r x => ∃ duration, r = x.2.record x.1 duration

namespace Recorded

variable {results : List TransferResult} {tasks : List (Task × Behaviour)} {clock : Clock}

theorem of_settled (hlength : results.length = tasks.length)
    (h : ∀ i < tasks.length, ∃ r, results[i]? = some r ∧ Settled clock tasks i r) :
    Recorded results tasks := by
  refine List.forall₂_iff_get.2 ⟨hlength, fun i hi hi' => ?_⟩
  obtain ⟨r, hr, task, b, chain, began, htask, -, -, rfl⟩ := h i hi'
  rw [List.getElem?_eq_getElem hi] at hr
  rw [List.getElem?_eq_getElem hi'] at htask
  refine ⟨b.durationFrom clock began, ?_⟩
  rw [List.get_eq_getElem, List.get_eq_getElem, Option.some.inj hr, Option.some.inj htask]

theorem map_task (h : Recorded results tasks) :
    results.map TransferResult.task = tasks.map Prod.fst := by
  induction h with
  | nil => rfl
  | cons hrecord _ ih =>
    obtain ⟨duration, rfl⟩ := hrecord
    rw [List.map_cons, List.map_cons, ih]
    rfl

/-- What is known of the operations from their records alone selects on both sides alike. -/
theorem filter {p : TransferResult → Bool} {keep : Behaviour → Bool} (h : Recorded results tasks)
    (hp : ∀ b task duration, p (Behaviour.record b task duration) = keep b) :
    Recorded (results.filter p) (tasks.filter fun x => keep x.2) := by
  refine List.rel_filter (fun r x hrecord => ?_) h
  obtain ⟨duration, rfl⟩ := hrecord
  show p _ = true ↔ keep x.2 = true
  rw [hp]

/-- The failures of an outcome are the results at the places of the operations that failed. -/
theorem failures (h : Recorded results tasks) :
    (Outcome.ofResults results).failures =
      ((results.zip tasks).filter fun x => x.2.2.fails).map Prod.fst := by
  show results.filter _ = _
  induction h with
  | nil => rfl
  | @cons r x _ _ hrecord _ ih =>
    obtain ⟨duration, rfl⟩ := hrecord
    rw [List.zip_cons_cons, List.filter_cons, List.filter_cons, x.2.not_succeeded_record, ih]
    split <;> rfl

/-- The tasks to send again are those whose operations failed in a way that repeating may mend. -/
theorem retryableTasks (h : Recorded results tasks) :
    (Outcome.ofResults results).retryableTasks =
      (tasks.filter fun x => x.2.failsForNow).map Prod.fst := by
  have hfailed : Recorded (results.filter fun r => !r.succeeded)
      (tasks.filter fun x => x.2.fails) := h.filter Behaviour.not_succeeded_record
  refine (hfailed.filter Behaviour.isRetryable_record).map_task.trans ?_
  rw [List.filter_filter]
  simp only [Bool.and_comm (Behaviour.failsForNow _), Behaviour.fails_and_failsForNow]

end Recorded

namespace Dispatch

variable {σ τ : Type}

/-- The outcome of a batch counts each task once, as a success or as a failure.  Its failures are
the results of the operations that failed, in the order of the tasks, and the tasks to send again
are those tasks of the batch whose operations failed in a way that repeating may mend, in their
order and as they are. -/
theorem run_outcome (clock : Clock) (tasks : List (Task × Behaviour)) (q : Rat)
    (observer : Observer τ) (world : σ) :
    ∃ results,
      (run clock (Behaviour.jobs tasks) (.finite q) observer world).outcome = .ok results ∧
      results.map TransferResult.task = tasks.map Prod.fst ∧
      let outcome := Outcome.ofResults results
      outcome.results = results ∧
      outcome.total = tasks.length ∧
      outcome.total = outcome.successCount + outcome.failureCount ∧
      outcome.failureCount = outcome.failures.length ∧
      outcome.failures = ((results.zip tasks).filter fun x => x.2.2.error?.isSome).map Prod.fst ∧
      outcome.retryableTasks =
        (tasks.filter fun x => x.2.error?.any Thrown.isRetryable).map Prod.fst := by
  obtain ⟨results, hout, hlength, hget⟩ :=
    exists_settled_results clock tasks observer world
      (.inr rfl : tasks = [] ∨ (Number.finite q).isFinite = true)
  have hrecorded := Recorded.of_settled hlength hget
  exact ⟨results, hout, hrecorded.map_task, rfl, hlength, (Outcome.counts_ofResults results).symm,
    rfl, hrecorded.failures, hrecorded.retryableTasks⟩

end Dispatch

end BulkTransfer
