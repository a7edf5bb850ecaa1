import BulkTransfer.Proofs.Pool.Bookkeeping

/-!
# Logs of calls

When each call of a job adds the job's own entries to a log that the world carries, and the end of
an operation adds none, a run adds the entries of all jobs in the order of the jobs (`Logs.run`),
whatever the number of workers.
-/

namespace BulkTransfer

namespace Pool

variable {σ τ α : Type} {jobs : List (Job σ)} {log : σ → List α} {entries : Job σ → List α}

/-- The calls of jobs, and nothing else, write to a log. -/
structure Logs (jobs : List (Job σ)) (log : σ → List α) (entries : Job σ → List α) : Prop where
  call : ∀ job ∈ jobs, ∀ w, log (job.call w).2 = log w ++ entries job
  finish : ∀ job ∈ jobs, ∀ {w delay finish}, (job.call w).1 = .waits delay finish →
    ∀ w', log (finish w').2 = log w'

/-- The log holds the entries of the jobs that have been called. -/
structure Logged (jobs : List (Job σ)) (log : σ → List α) (entries : Job σ → List α)
    (before : List α) (p : Pool σ τ) : Prop where
  tracks : Tracks jobs p
  log_eq : log p.world = before ++ (jobs.take p.started).flatMap entries
  timers : ∀ timer ∈ p.timers, ∀ w, log (timer.2.finish w).2 = log w

theorem world_launched (p : Pool σ τ) (index : Nat) (task : Task) (launch : Launch σ) :
    (p.launched index task launch).world = p.world := by
  cases launch <;> rfl

/-- What waits after the call of a job waited before, or is what the job leaves waiting. -/
theorem timers_call {p : Pool σ τ} {index : Nat} {job : Job σ} {rest : List (Nat × Job σ)}
    {timer : Time × Flight σ} (h : timer ∈ (p.call index job rest).timers) :
    timer ∈ p.timers ∨ ∃ delay, (job.call p.world).1 = .waits delay timer.2.finish := by
  rw [call] at h
  cases hl : (job.call p.world).1 with
  | throws error => rw [hl] at h; exact .inl h
  | refused error => rw [hl] at h; exact .inl h
  | waits delay finish =>
    rw [hl] at h
    rcases Timers.mem_set.1 h with rfl | h
    · exact .inr ⟨delay, rfl⟩
    · exact .inl h

theorem Logged.call (hl : Logs jobs log entries) {before : List α} {p : Pool σ τ} {index : Nat}
    {job : Job σ} {rest : List (Nat × Job σ)} (h : Logged jobs log entries before p)
    (hu : p.unstarted = (index, job) :: rest) :
    Logged jobs log entries before (p.call index job rest) := by
  obtain ⟨rfl, hjob, -, -⟩ := h.tracks.next_job hu
  have hmem : job ∈ jobs := List.mem_of_getElem? hjob
  refine ⟨(invariant_tracks jobs).call h.tracks hu, ?_, fun timer ht => ?_⟩
  · have htake : jobs.take (p.started + 1) = jobs.take p.started ++ [job] := by
      rw [List.take_add_one, hjob]
      rfl
    rw [started_call h.tracks hu, htake, List.flatMap_append, ← List.append_assoc, ← h.log_eq,
      Pool.call, world_launched, List.flatMap_singleton]
    exact hl.call job hmem p.world
  · rcases timers_call ht with hold | ⟨delay, hwaits⟩
    · exact h.timers timer hold
    · exact hl.finish job hmem hwaits

theorem Logs.invariant (hl : Logs jobs log entries) (before : List α) :
    Invariant (τ := τ) (Logged jobs log entries before) where
  wake := fun h hready =>
    { h with tracks := (invariant_tracks jobs).wake h.tracks hready }
  logFailure := fun h hready =>
    { h with tracks := (invariant_tracks jobs).logFailure h.tracks hready }
  conclude := fun h hready =>
    { h with tracks := (invariant_tracks jobs).conclude h.tracks hready }
  land := fun {p due flight rest} h hready htimers =>
    { tracks := (invariant_tracks jobs).land h.tracks hready htimers
      log_eq := (h.timers (due, flight) (by simp [htimers]) p.world).trans h.log_eq
      timers := fun timer ht => h.timers timer (htimers ▸ List.mem_cons_of_mem _ ht) }
  call := Logged.call hl

/-- A run adds the entries of all jobs in their order. -/
theorem Logs.run (hl : Logs jobs log entries) (clock : Clock) (world : σ) (observer : Observer τ)
    {workers : Nat} (hworkers : 0 < workers) :
    log (start clock world observer jobs workers).run.world =
      log world ++ jobs.flatMap entries := by
  have htracks := tracks_start clock world observer jobs workers
  have hbusy := busy_start clock world observer jobs hworkers
  have hstart : Logged jobs log entries (log world) (start clock world observer jobs workers) :=
    ⟨htracks, by simp [started, start], fun _ ht => absurd ht List.not_mem_nil⟩
  rw [((hl.invariant _).run hstart).log_eq, started_run htracks hbusy, List.take_length]

end Pool

end BulkTransfer
