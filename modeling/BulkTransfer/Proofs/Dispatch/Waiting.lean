import BulkTransfer.Proofs.Dispatch.Behaviours
import BulkTransfer.Proofs.Pool.Crew

/-!
# How many operations of a batch wait

A batch of operations that do not look at the world has as many workers as its concurrency says,
rounded down and at least one, but no more than tasks.  Whenever a timer is about to fire each
worker waits for an operation, or each task that is not finished is waited for (`run_crew`).
-/

namespace BulkTransfer

/-- Whether an operation waits when it is called. -/
def Behaviour.isWaiting : Behaviour → Bool
  | .throws _ => false
  | .settles _ _ => true

theorem Behaviour.isWaiting_call {σ : Type} (task : Task) (b : Behaviour) (world : σ) :
    ((Job.behaving task b).call world).1.isWaiting = b.isWaiting := by
  cases b <;> rfl

theorem Pool.Tracks.finished_le {σ τ : Type} {jobs : List (Job σ)} {p : Pool σ τ}
    (h : Tracks jobs p) : p.finished.length ≤ jobs.length := by
  have hplaces := h.perm.length_eq
  have hstarted := h.started_le
  simp only [done, List.length_append, List.length_map, List.length_range] at hplaces
  omega

namespace Dispatch

variable {σ τ : Type}

/-- The number of workers of a batch. -/
def workers (q : Rat) (tasks : Nat) : Nat := min (max 1 q.floor).toNat tasks

theorem workers_pos (q : Rat) {tasks : Nat} (h : 0 < tasks) : 0 < workers q tasks := by
  rw [workers]
  omega

/-- A batch resolves with what its workers leave, also when there is nothing to do. -/
theorem run_eq_pool (clock : Clock) (jobs : List (Job σ)) (q : Rat) (observer : Observer τ)
    (world : σ) :
    let final := pool clock world observer jobs (workers q jobs.length)
    (run clock jobs (.finite q) observer world).outcome = .ok final.results ∧
      (run clock jobs (.finite q) observer world).peak = final.peak := by
  intro final
  by_cases hjobs : jobs = []
  · subst hjobs
    have hnobody : workers q ([] : List (Job σ)).length = 0 := Nat.min_zero _
    simp only [final]
    rw [hnobody]
    exact ⟨rfl, rfl⟩
  · obtain ⟨warning, hnormal⟩ := Concurrency.normalize_finite q
    have hrun := run_of_normalize clock jobs observer world hjobs hnormal
    exact ⟨congrArg (·.outcome) hrun, congrArg (·.peak) hrun⟩

/-- The peak of a pool of such operations counts those that wait, up to the number of workers. -/
theorem peak_behaving (clock : Clock) (tasks : List (Task × Behaviour)) (observer : Observer τ)
    (world : σ) {count : Nat}
    (h : (Pool.start clock world observer (Behaviour.jobs tasks) count).Busy) :
    (pool clock world observer (Behaviour.jobs tasks) count).peak =
      min count (tasks.countP fun x => x.2.isWaiting) := by
  -- Calling a job's operation in any world tells whether it waits; take the one at hand.
  have hwaits : ∀ job ∈ (Behaviour.jobs tasks : List (Job σ)), ∀ w,
      (job.call w).1.isWaiting = (job.call world).1.isWaiting := by
    intro job hjob w
    obtain ⟨x, -, rfl⟩ := List.mem_map.1 hjob
    rw [Behaviour.isWaiting_call, Behaviour.isWaiting_call]
  rw [pool, Pool.peak_run clock world observer h hwaits, Behaviour.jobs, List.countP_map]
  congr 1
  exact List.countP_congr fun x _ => by
    rw [Function.comp_apply, Behaviour.isWaiting_call]

/-- In a batch of such operations no more of them wait than there are workers.  When a timer is
about to fire as many wait as there are workers, or as tasks that are not finished where these are
fewer: no worker idles while a task is left.  So the peak is the number of workers, or that of the
operations that do not throw at once where these are fewer. -/
theorem run_crew (clock : Clock) (tasks : List (Task × Behaviour)) (q : Rat) (observer : Observer τ)
    (world : σ) :
    let count := workers q tasks.length
    let start := Pool.start clock world observer (Behaviour.jobs tasks) count
    let ran := run clock (Behaviour.jobs tasks) (.finite q) observer world
    (start.Reaches start.run ∧ ran.outcome = .ok start.run.results ∧ ran.peak = start.run.peak) ∧
    (∀ p, start.Reaches p → p.timers.length ≤ count ∧ p.peak ≤ count ∧
      p.finished.length ≤ tasks.length ∧
      (p.ready = [] → p.timers.length = min count (tasks.length - p.finished.length))) ∧
    ran.peak = min count (tasks.countP fun x => x.2.isWaiting) := by
  intro count start ran
  have hlength : (Behaviour.jobs tasks : List (Job σ)).length = tasks.length := by
    simp [Behaviour.jobs]
  have hcrewed : ∀ p, start.Reaches p → Pool.Crewed count p := fun p hp =>
    hp.keeps (fun h hs => h.move (Pool.move_of_step? hs)) (Pool.crewed_start _ _ _ _ _)
  have htracks : ∀ p, start.Reaches p → Pool.Tracks (Behaviour.jobs tasks) p := fun p hp =>
    hp.keeps (fun h hs => (Pool.invariant_tracks _).step? h hs) (Pool.tracks_start _ _ _ _ _)
  have hbusy : start.Busy := by
    by_cases htasks : tasks = []
    · subst htasks
      exact .inl rfl
    · exact Pool.busy_start _ _ _ _ (workers_pos q (List.length_pos_iff.2 htasks))
  have hpeak := peak_behaving clock tasks observer world hbusy
  have hrun : ran.outcome = .ok start.run.results ∧ ran.peak = start.run.peak := by
    have hpool := run_eq_pool clock (Behaviour.jobs tasks) q observer world
    rwa [hlength] at hpool
  refine ⟨⟨Pool.reaches_run _, hrun⟩, fun p hp => ?_, ?_⟩
  · have hcrew := (hcrewed p hp).crew_le
    rw [Pool.crew] at hcrew
    refine ⟨by omega, (hcrewed p hp).peak_le, hlength ▸ (htracks p hp).finished_le,
      fun hready => ?_⟩
    rw [← hlength]
    exact (hcrewed p hp).timers_eq (htracks p hp) hready
  · rw [hrun.2]
    exact hpeak

end Dispatch

end BulkTransfer
