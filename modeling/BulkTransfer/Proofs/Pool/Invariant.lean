import BulkTransfer.Pool.Load

/-!
# Properties that a run keeps

A move of a pool is made of a few parts: a ready worker is woken, logs a failure or concludes its
task, or a timer fires; then a job may be called.  `Invariant P` says that `P` survives each part,
and `Invariant.run` that it then holds at the end of a run.  `busy_of_step?` says that no move
leaves jobs behind without a worker to take them, so a run ends with all jobs called and all tasks
finished (`run_drained`).
-/

namespace BulkTransfer

namespace Pool

variable {σ τ : Type}

/-! ## The parts of a move -/

/-- The pool after a timer has fired and its task is recorded, before the worker goes on. -/
def land (p : Pool σ τ) (due : Time) (flight : Flight σ) : Pool σ τ :=
  ({ p with world := (flight.finish p.world).2, now := due }.emit
      (failureLines flight.task (flight.finish p.world).1)).record flight.index
    (.ofOutcome flight.task (flight.finish p.world).1 (p.clock.between flight.began due))

def call (p : Pool σ τ) (index : Nat) (job : Job σ) (rest : List (Nat × Job σ)) : Pool σ τ :=
  (p.called job rest).launched index job.task (job.call p.world).1

theorem fire_eq_takeNext_land (p : Pool σ τ) (due : Time) (flight : Flight σ) :
    p.fire due flight = (p.land due flight).takeNext := rfl

theorem takeNext_of_nil {p : Pool σ τ} (h : p.unstarted = []) : p.takeNext = p := by
  rw [takeNext, h]

theorem takeNext_of_cons {p : Pool σ τ} {index : Nat} {job : Job σ} {rest : List (Nat × Job σ)}
    (h : p.unstarted = (index, job) :: rest) : p.takeNext = p.call index job rest := by
  rw [takeNext, h]
  rfl

/-- What a property of pools must survive to hold at the end of a run. -/
structure Invariant (P : Pool σ τ → Prop) : Prop where
  wake : ∀ {p rest}, P p → p.ready = .next :: rest → P { p with ready := rest }
  logFailure : ∀ {p index task began error rest}, P p →
    p.ready = .logFailure index task began error :: rest →
    P ({ p with ready := rest }.resume (.logFailure index task began error))
  conclude : ∀ {p index result rest}, P p → p.ready = .conclude index result :: rest →
    P ({ p with ready := rest }.record index result)
  land : ∀ {p due flight rest}, P p → p.ready = [] → p.timers = (due, flight) :: rest →
    P ({ p with timers := rest }.land due flight)
  call : ∀ {p index job rest}, P p → p.unstarted = (index, job) :: rest → P (p.call index job rest)

namespace Invariant

variable {P : Pool σ τ → Prop}

theorem takeNext (h : Invariant P) {p : Pool σ τ} (hp : P p) : P p.takeNext := by
  rcases hu : p.unstarted with _ | ⟨⟨index, job⟩, rest⟩
  · rw [takeNext_of_nil hu]
    exact hp
  · rw [takeNext_of_cons hu]
    exact h.call hp hu

theorem step? (h : Invariant P) {p next : Pool σ τ} (hp : P p) (hs : p.step? = some next) :
    P next := by
  rw [Pool.step?] at hs
  split at hs
  · next r rest hready =>
    cases hs
    cases r with
    | next => exact h.takeNext (h.wake hp hready)
    | logFailure index task began error => exact h.logFailure hp hready
    | conclude index result => exact h.takeNext (h.conclude hp hready)
  · next due flight rest hready htimers =>
    cases hs
    rw [fire_eq_takeNext_land]
    exact h.takeNext (h.land hp hready htimers)
  · cases hs

end Invariant

/-! ## Runs -/

theorem run_of_step? {P : Pool σ τ → Prop}
    (hstep : ∀ {p next : Pool σ τ}, P p → p.step? = some next → P next) {p : Pool σ τ} (hp : P p) :
    P p.run := by
  -- By the bound on the number of moves, for every pool that a run passes through.
  have hdrive : ∀ (moves : Nat) (q : Pool σ τ), P q → P (drive moves q) := by
    intro moves
    induction moves with
    | zero => exact fun q hq => hq
    | succ moves ih =>
      intro q hq
      rw [drive]
      split
      · exact hq
      · next next hs => exact ih next (hstep hq hs)
  exact hdrive _ p hp

theorem Invariant.run {P : Pool σ τ → Prop} (h : Invariant P) {p : Pool σ τ} (hp : P p) :
    P p.run :=
  run_of_step? h.step? hp

/-! ## Runs leave nothing behind -/

/-- Jobs are left only while some worker is ready or waits. -/
def Busy (p : Pool σ τ) : Prop := p.unstarted = [] ∨ p.ready ≠ [] ∨ p.timers ≠ []

theorem busy_start (clock : Clock) (world : σ) (observer : Observer τ) (jobs : List (Job σ))
    {workers : Nat} (h : 0 < workers) : (start clock world observer jobs workers).Busy := by
  refine .inr (.inl (List.ne_nil_of_length_pos ?_))
  simpa [start] using h

theorem busy_launched (p : Pool σ τ) (index : Nat) (task : Task) (launch : Launch σ) :
    (p.launched index task launch).Busy := by
  cases launch with
  | throws error => exact .inr (.inl (by simp [launched, enqueue]))
  | refused error => exact .inr (.inl (by simp [launched, enqueue]))
  | waits delay finish =>
    refine .inr (.inr (List.ne_nil_of_length_pos ?_))
    simp [launched, wait, Timers.length_set]

theorem busy_takeNext (p : Pool σ τ) : p.takeNext.Busy := by
  rcases hu : p.unstarted with _ | ⟨⟨index, job⟩, rest⟩
  · rw [takeNext_of_nil hu]
    exact .inl hu
  · rw [takeNext_of_cons hu]
    exact busy_launched _ _ _ _

theorem busy_of_step? {p next : Pool σ τ} (hs : p.step? = some next) : next.Busy := by
  rw [step?] at hs
  split at hs
  · next r rest hready =>
    cases hs
    cases r with
    | next => exact busy_takeNext _
    | logFailure index task began error => exact .inr (.inl (by simp [resume, enqueue]))
    | conclude index result => exact busy_takeNext _
  · cases hs
    exact busy_takeNext _
  · cases hs

/-- A run of a busy pool ends with no job left, no worker ready and no timer set. -/
theorem run_drained {p : Pool σ τ} (h : p.Busy) :
    p.run.unstarted = [] ∧ p.run.ready = [] ∧ p.run.timers = [] := by
  have hbusy : p.run.Busy := run_of_step? (fun _ hs => busy_of_step? hs) h
  -- A run stops only where no move is left: nobody is ready and no timer is set.
  have hnone := step?_run p
  rw [step?] at hnone
  split at hnone
  · cases hnone
  · cases hnone
  · next hready htimers =>
    refine ⟨?_, hready, htimers⟩
    rcases hbusy with hu | hr | ht
    · exact hu
    · exact absurd hready hr
    · exact absurd htimers ht

end Pool

end BulkTransfer
