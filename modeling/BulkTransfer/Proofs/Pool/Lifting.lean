import Mathlib.Data.List.Forall2
import BulkTransfer.Dispatch
import BulkTransfer.Proofs.Pool.Invariant

/-!
# Runs over a larger world

A world may carry more than the operations look at.  When each job over the larger world does what a
job over the smaller one does, and its world projects to the other's, a whole batch does so
(`Dispatch.run_lifts`): results, events and schedule are the same.
-/

namespace BulkTransfer

variable {σ σ' τ : Type}

/-! ## Operations over a larger world -/

def FinishLifts (π : σ' → σ) (finish' : σ' → Except Thrown Unit × σ')
    (finish : σ → Except Thrown Unit × σ) : Prop :=
  ∀ w, (finish' w).1 = (finish (π w)).1 ∧ π (finish' w).2 = (finish (π w)).2

/-- An operation over a larger world goes on as another one. -/
inductive Launch.Lifts (π : σ' → σ) : Launch σ' → Launch σ → Prop
  | throws (error : Thrown) : Lifts π (.throws error) (.throws error)
  | refused (error : Thrown) : Lifts π (.refused error) (.refused error)
  | waits (delay : Time) {finish' : σ' → Except Thrown Unit × σ'}
    {finish : σ → Except Thrown Unit × σ} (h : FinishLifts π finish' finish) :
    Lifts π (.waits delay finish') (.waits delay finish)

/-- A job over a larger world does what another one does. -/
structure Job.Lifts (π : σ' → σ) (job' : Job σ') (job : Job σ) : Prop where
  task : job'.task = job.task
  launch : ∀ w, (job'.call w).1.Lifts π (job.call (π w)).1
  world : ∀ w, π (job'.call w).2 = (job.call (π w)).2

inductive Flight.Lifts (π : σ' → σ) : Flight σ' → Flight σ → Prop
  | mk (index : Nat) (task : Task) (began : Time) {finish' : σ' → Except Thrown Unit × σ'}
    {finish : σ → Except Thrown Unit × σ} (h : FinishLifts π finish' finish) :
    Lifts π ⟨index, task, began, finish'⟩ ⟨index, task, began, finish⟩

namespace Pool

abbrev JobsLift (π : σ' → σ) : List (Nat × Job σ') → List (Nat × Job σ) → Prop :=
  List.Forall₂ fun x y => x.1 = y.1 ∧ x.2.Lifts π y.2

abbrev TimersLift (π : σ' → σ) : Timers (Flight σ') → Timers (Flight σ) → Prop :=
  List.Forall₂ fun x y => x.1 = y.1 ∧ x.2.Lifts π y.2

/-- The state of a pool with another world, and with jobs and waiting operations over that. -/
def withWorld (p : Pool σ τ) (world : σ') (unstarted : List (Nat × Job σ'))
    (timers : Timers (Flight σ')) : Pool σ' τ :=
  ⟨world, p.observer, p.total, p.clock, p.now, unstarted, p.ready, timers, p.finished, p.events,
    p.peak⟩

/-- A pool over a larger world is in the same state as another one. -/
inductive Lifts (π : σ' → σ) : Pool σ' τ → Pool σ τ → Prop
  | mk (p : Pool σ τ) {world : σ'} {unstarted : List (Nat × Job σ')} {timers : Timers (Flight σ')}
    (hworld : π world = p.world) (hunstarted : JobsLift π unstarted p.unstarted)
    (htimers : TimersLift π timers p.timers) : Lifts π (p.withWorld world unstarted timers) p

theorem timersLift_set {π : σ' → σ} (due : Time) {flight' : Flight σ'} {flight : Flight σ}
    (hf : flight'.Lifts π flight) {timers' : Timers (Flight σ')} {timers : Timers (Flight σ)}
    (h : TimersLift π timers' timers) :
    TimersLift π (timers'.set due flight') (timers.set due flight) := by
  induction h with
  | nil => exact .cons ⟨rfl, hf⟩ .nil
  | cons hhead htail ih =>
    rw [Timers.set, Timers.set, hhead.1]
    split
    · exact .cons ⟨rfl, hf⟩ (.cons hhead htail)
    · exact .cons hhead ih

theorem jobsLift_zipIdx {π : σ' → σ} {jobs' : List (Job σ')} {jobs : List (Job σ)}
    (h : List.Forall₂ (Job.Lifts π) jobs' jobs) (n : Nat) :
    JobsLift π ((jobs'.zipIdx n).map fun (job, index) => (index, job))
      ((jobs.zipIdx n).map fun (job, index) => (index, job)) := by
  induction h generalizing n with
  | nil => exact .nil
  | cons hjob _ ih => exact .cons ⟨rfl, hjob⟩ (ih (n + 1))

namespace Lifts

variable {π : σ' → σ} {p' : Pool σ' τ} {p : Pool σ τ}

/-! ## The parts of a move -/

theorem emit (h : Lifts π p' p) (events : List Event) :
    Lifts π (p'.emit events) (p.emit events) := by
  obtain ⟨_, hworld, hunstarted, htimers⟩ := h
  exact .mk (p.emit events) hworld hunstarted htimers

theorem enqueue (h : Lifts π p' p) (r : Resume) : Lifts π (p'.enqueue r) (p.enqueue r) := by
  obtain ⟨_, hworld, hunstarted, htimers⟩ := h
  exact .mk (p.enqueue r) hworld hunstarted htimers

theorem wait (h : Lifts π p' p) (delay : Time) {flight' : Flight σ'} {flight : Flight σ}
    (hf : flight'.Lifts π flight) : Lifts π (p'.wait delay flight') (p.wait delay flight) := by
  obtain ⟨_, hworld, hunstarted, htimers⟩ := h
  rename_i world unstarted timers
  have hset := timersLift_set (p.clock.after p.now delay) hf htimers
  have hworlds : (p.withWorld world unstarted timers).wait delay flight' =
      (p.wait delay flight).withWorld world unstarted
        (timers.set (p.clock.after p.now delay) flight') := by
    simp only [withWorld, Pool.wait, hset.length_eq]
  rw [hworlds]
  exact .mk _ hworld hunstarted hset

theorem launched (h : Lifts π p' p) (index : Nat) (task : Task) {launch' : Launch σ'}
    {launch : Launch σ} (hl : launch'.Lifts π launch) :
    Lifts π (p'.launched index task launch') (p.launched index task launch) := by
  have hnow : p'.now = p.now := by cases h; rfl
  cases hl with
  | throws error => exact (h.emit _).enqueue _
  | refused error =>
    rw [Pool.launched, Pool.launched, hnow]
    exact h.enqueue _
  | waits delay hfinish =>
    rw [Pool.launched, Pool.launched, hnow]
    exact h.wait delay (.mk index task p.now hfinish)

theorem called (h : Lifts π p' p) {job' : Job σ'} {job : Job σ} (hjob : job'.Lifts π job)
    {rest' : List (Nat × Job σ')} {rest : List (Nat × Job σ)} (hrest : JobsLift π rest' rest) :
    Lifts π (p'.called job' rest') (p.called job rest) ∧
      (job'.call p'.world).1.Lifts π (job.call p.world).1 := by
  obtain ⟨_, hworld, -, htimers⟩ := h
  rename_i world unstarted timers
  have hlaunch := hjob.launch world
  have hafter := hjob.world world
  rw [hworld] at hlaunch hafter
  have hworlds : (p.withWorld world unstarted timers).called job' rest' =
      (p.called job rest).withWorld (job'.call world).2 rest' timers := by
    simp only [withWorld, Pool.called, Pool.emit, hjob.task]
  rw [hworlds]
  exact ⟨.mk _ hafter hrest htimers, hlaunch⟩

theorem takeNext (h : Lifts π p' p) : Lifts π p'.takeNext p.takeNext := by
  have hunstarted : JobsLift π p'.unstarted p.unstarted := by obtain ⟨_, -, hu, -⟩ := h; exact hu
  rcases hu : p.unstarted with _ | ⟨⟨index, job⟩, rest⟩
  · rw [hu] at hunstarted
    rw [takeNext_of_nil hu, takeNext_of_nil (List.forall₂_nil_right_iff.1 hunstarted)]
    exact h
  · rw [hu] at hunstarted
    obtain ⟨⟨_, job'⟩, rest', ⟨rfl, hjob⟩, hrest, hu'⟩ := List.forall₂_cons_right_iff.1 hunstarted
    obtain ⟨hcalled, hlaunch⟩ := h.called hjob hrest
    rw [takeNext_of_cons hu, takeNext_of_cons hu', call, call, hjob.task]
    exact hcalled.launched _ job.task hlaunch

theorem record (h : Lifts π p' p) (index : Nat) (result : TransferResult) :
    Lifts π (p'.record index result) (p.record index result) := by
  obtain ⟨_, hworld, hunstarted, htimers⟩ := h
  exact .mk (p.record index result) hworld hunstarted htimers

theorem resume (h : Lifts π p' p) (r : Resume) : Lifts π (p'.resume r) (p.resume r) := by
  cases r with
  | next => exact h.takeNext
  | logFailure index task began error =>
    have hspan : p'.clock.between began p'.now = p.clock.between began p.now := by cases h; rfl
    rw [Pool.resume, Pool.resume, hspan]
    exact (h.emit _).enqueue _
  | conclude index result => exact (h.record index result).takeNext

theorem land (h : Lifts π p' p) (due : Time) {flight' : Flight σ'} {flight : Flight σ}
    (hf : flight'.Lifts π flight) : Lifts π (p'.land due flight') (p.land due flight) := by
  obtain ⟨_, hworld, hunstarted, htimers⟩ := h
  rename_i world unstarted timers
  obtain ⟨index, task, began, hfinish⟩ := hf
  rename_i finish' finish
  obtain ⟨hout, hafter⟩ := hfinish world
  rw [hworld] at hout hafter
  have hworlds : (p.withWorld world unstarted timers).land due ⟨index, task, began, finish'⟩ =
      (p.land due ⟨index, task, began, finish⟩).withWorld (finish' world).2 unstarted timers := by
    simp only [withWorld, Pool.land, Pool.record, Pool.emit, hout]
  rw [hworlds]
  exact .mk _ hafter hunstarted htimers

/-! ## Moves and runs -/

theorem step? (h : Lifts π p' p) : Option.Rel (Lifts π) p'.step? p.step? := by
  obtain ⟨_, hworld, hunstarted, htimers⟩ := h
  rename_i world unstarted timers
  rw [Pool.step?, Pool.step?]
  have hready : (p.withWorld world unstarted timers).ready = p.ready := rfl
  have hset : (p.withWorld world unstarted timers).timers = timers := rfl
  rw [hready, hset]
  rcases hr : p.ready with _ | ⟨r, rest⟩
  -- Nobody is ready in either pool, and they have as many timers.
  · rcases ht : p.timers with _ | ⟨⟨due, flight⟩, rest⟩
    · rw [ht] at htimers
      rw [List.forall₂_nil_right_iff.1 htimers]
      exact .none
    · rw [ht] at htimers
      obtain ⟨⟨_, flight'⟩, rest', ⟨rfl, hflight⟩, hrest, rfl⟩ :=
        List.forall₂_cons_right_iff.1 htimers
      have hafter := Lifts.mk { p with ready := [], timers := rest } hworld hunstarted hrest
      exact .some ((hafter.land _ hflight).takeNext)
  · have hafter := Lifts.mk { p with ready := rest } hworld hunstarted htimers
    exact .some (hafter.resume r)

theorem load (h : Lifts π p' p) : p'.load = p.load := by
  obtain ⟨_, -, hunstarted, htimers⟩ := h
  rw [Pool.load, Pool.load]
  simp only [Pool.withWorld, hunstarted.length_eq, htimers.length_eq]

theorem drive (moves : Nat) (h : Lifts π p' p) : Lifts π (drive moves p') (drive moves p) := by
  induction moves generalizing p' p with
  | zero => exact h
  | succ moves ih =>
    have hstep := h.step?
    rw [Pool.drive, Pool.drive]
    revert hstep
    generalize p'.step? = next', p.step? = next
    rintro (hnext | _)
    · exact ih hnext
    · exact h

theorem run (h : Lifts π p' p) : Lifts π p'.run p.run := by
  rw [Pool.run, Pool.run, h.load]
  exact h.drive _

theorem results (h : Lifts π p' p) : p'.results = p.results := by
  cases h
  rfl

theorem start (clock : Clock) (world : σ') (observer : Observer τ) {jobs' : List (Job σ')}
    {jobs : List (Job σ)} (h : List.Forall₂ (Job.Lifts π) jobs' jobs) (workers : Nat) :
    Lifts π (start clock world observer jobs' workers)
      (start clock (π world) observer jobs workers) := by
  have hworlds : Pool.start clock world observer jobs' workers =
      (Pool.start clock (π world) observer jobs workers).withWorld world
        (Pool.start clock world observer jobs' workers).unstarted [] := by
    simp only [Pool.start, withWorld, h.length_eq]
  rw [hworlds]
  exact .mk _ rfl (jobsLift_zipIdx h 0) .nil

end Lifts

end Pool

/-! ## Batches -/

/-- A batch over a larger world goes as the batch over the smaller one. -/
theorem Dispatch.run_lifts {π : σ' → σ} (clock : Clock) {jobs' : List (Job σ')}
    {jobs : List (Job σ)} (h : List.Forall₂ (Job.Lifts π) jobs' jobs) (concurrency : Number)
    (observer : Observer τ) (world : σ') :
    let ran' := run clock jobs' concurrency observer world
    let ran := run clock jobs concurrency observer (π world)
    ran'.outcome = ran.outcome ∧ π ran'.world = ran.world ∧ ran'.events = ran.events ∧
      ran'.peak = ran.peak := by
  by_cases hjobs : jobs = []
  · subst hjobs
    rw [List.forall₂_nil_right_iff.1 h]
    exact ⟨rfl, rfl, rfl, rfl⟩
  · have hjobs' : jobs' ≠ [] := fun e => hjobs (List.forall₂_nil_left_iff.1 (e ▸ h))
    rw [run, run, if_neg (by simpa using hjobs'), if_neg (by simpa using hjobs)]
    cases Concurrency.normalize concurrency with
    | error error => exact ⟨rfl, rfl, rfl, rfl⟩
    | ok count =>
      have hpool : Pool.Lifts π (pool clock world observer jobs' (min count.1 jobs.length))
          (pool clock (π world) observer jobs (min count.1 jobs.length)) :=
        (Pool.Lifts.start clock world observer h _).run
      simp only [h.length_eq]
      revert hpool
      generalize pool clock world observer jobs' _ = final', pool clock (π world) _ _ _ = final
      rintro ⟨_, hworld, -, -⟩
      exact ⟨rfl, hworld, rfl, rfl⟩

end BulkTransfer
