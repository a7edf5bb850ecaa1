import BulkTransfer.Proofs.Clock.Whole
import BulkTransfer.Proofs.Dispatch.Basic

/-!
# Batches of operations that do not look at the world

When the operation of each task only throws, or settles after a delay, the result of a task is the
record of its own operation, whatever the other tasks do and however many workers there are
(`run_behaving`).  Its duration is read off the clock, and is the delay of the operation if the
clock shows sums of the delays as they are; the machine's clock need not do so
(`not_run_binary_delays`), but does for whole milliseconds (`run_binary_whole`).
-/

namespace BulkTransfer

namespace Behaviour

/-- What an operation throws or is rejected with, if it fails. -/
def error? : Behaviour → Option Thrown
  | .throws error => some error
  | .settles _ (.ok _) => none
  | .settles _ (.error error) => some error

def delay : Behaviour → Time
  | .throws _ => 0
  | .settles delay _ => delay

/-- How long an operation that begins at a given time takes by the clock. -/
def durationFrom (clock : Clock) (began : Time) : Behaviour → Time
  | .throws _ => 0
  | .settles delay _ => clock.between began (clock.after began delay)

/-- The record of a task: whether its operation succeeded, what it failed with and how long it
took. -/
def record (b : Behaviour) (task : Task) (duration : Time) : TransferResult :=
  ⟨task, b.error?.isNone, b.error?.map Thrown.failureDetail, duration⟩

def jobs {σ : Type} (tasks : List (Task × Behaviour)) : List (Job σ) :=
  tasks.map fun x => .behaving x.1 x.2

def delays (tasks : List (Task × Behaviour)) : List Time := tasks.map fun x => x.2.delay

theorem ofOutcome_eq_record (delay : Time) (outcome : Except Thrown Unit) (task : Task)
    (duration : Time) :
    TransferResult.ofOutcome task outcome duration =
      (settles delay outcome).record task duration := by
  cases outcome <;> rfl

end Behaviour

/-! ## Finished tasks -/

/-- A result is the record of a task's own operation, which began at an instant that the task itself
had no part in. -/
def Settled (clock : Clock) (tasks : List (Task × Behaviour)) (i : Nat) (r : TransferResult) :
    Prop :=
  ∃ task b chain began, tasks[i]? = some (task, b) ∧
    Instant clock (Behaviour.delays tasks) chain began ∧ i ∉ chain ∧
    r = b.record task (b.durationFrom clock began)

namespace Pool

variable {σ τ : Type} {clock : Clock} {tasks : List (Task × Behaviour)}

/-- A time that was reached by tasks that are finished. -/
def Reached (tasks : List (Task × Behaviour)) (p : Pool σ τ) (chain : List Nat) (time : Time) :
    Prop :=
  chain ⊆ p.done ∧ Instant p.clock (Behaviour.delays tasks) chain time

/-- An operation waits for its own delay, since an instant reached by finished tasks. -/
def Waits (tasks : List (Task × Behaviour)) (p : Pool σ τ) (due : Time) (flight : Flight σ) :
    Prop :=
  ∃ chain delay outcome, p.Reached tasks chain flight.began ∧
    tasks[flight.index]? = some (flight.task, .settles delay outcome) ∧
    due = p.clock.after flight.began delay ∧ ∀ w, flight.finish w = (outcome, w)

/-- Each operation does as its task's behaviour says, at instants that finished tasks led to. -/
structure Follows (clock : Clock) (tasks : List (Task × Behaviour)) (p : Pool σ τ) : Prop where
  tracks : Tracks (Behaviour.jobs tasks) p
  clock_eq : p.clock = clock
  now : ∃ chain, p.Reached tasks chain p.now
  ready : ∀ r ∈ p.ready, r.Ends (Settled clock tasks)
  timers : ∀ timer ∈ p.timers, p.Waits tasks timer.1 timer.2
  finished : ∀ x ∈ p.finished, Settled clock tasks x.1 x.2

theorem getElem?_jobs {i : Nat} {job : Job σ} (h : (Behaviour.jobs tasks)[i]? = some job) :
    ∃ task b, tasks[i]? = some (task, b) ∧ job = .behaving task b := by
  rw [Behaviour.jobs, List.getElem?_map, Option.map_eq_some_iff] at h
  obtain ⟨⟨task, b⟩, hget, rfl⟩ := h
  exact ⟨task, b, hget, rfl⟩

theorem Reached.mono {p q : Pool σ τ} {chain : List Nat} {time : Time}
    (h : p.Reached tasks chain time) (hdone : p.done ⊆ q.done) (hclock : q.clock = p.clock) :
    q.Reached tasks chain time :=
  ⟨fun _ hi => hdone (h.1 hi), hclock ▸ h.2⟩

theorem Waits.mono {p q : Pool σ τ} {due : Time} {flight : Flight σ} (h : p.Waits tasks due flight)
    (hdone : p.done ⊆ q.done) (hclock : q.clock = p.clock) : q.Waits tasks due flight := by
  obtain ⟨chain, delay, outcome, hreached, htask, hdue, hfinish⟩ := h
  exact ⟨chain, delay, outcome, hreached.mono hdone hclock, htask, hclock ▸ hdue, hfinish⟩

theorem Follows.call {p : Pool σ τ} {index : Nat} {job : Job σ} {rest : List (Nat × Job σ)}
    (h : Follows clock tasks p) (hu : p.unstarted = (index, job) :: rest) :
    Follows clock tasks (p.call index job rest) := by
  have htracks := (invariant_tracks _).call h.tracks hu
  obtain ⟨rfl, hjob, -, -⟩ := h.tracks.next_job hu
  obtain ⟨task, b, htask, rfl⟩ := getElem?_jobs hjob
  obtain ⟨chain, hnow⟩ := h.now
  cases b with
  | throws error =>
    have hnew : p.started ∉ chain := fun hi => h.tracks.started_not_mem_done (hnow.1 hi)
    have hend : (Resume.conclude p.started (.failure task error 0)).Ends (Settled clock tasks) :=
      ⟨task, _, chain, p.now, htask, h.clock_eq ▸ hnow.2, hnew, rfl⟩
    exact ⟨htracks, h.clock_eq, ⟨chain, hnow⟩,
      List.forall_mem_append.2 ⟨h.ready, List.forall_mem_singleton.2 hend⟩, h.timers, h.finished⟩
  | settles delay outcome =>
    refine ⟨htracks, h.clock_eq, ⟨chain, hnow⟩, h.ready, fun timer ht => ?_, h.finished⟩
    rcases Timers.mem_set.1 ht with rfl | ht
    · exact ⟨chain, delay, outcome, hnow, htask, rfl, fun _ => rfl⟩
    · exact h.timers timer ht

/-- A landing operation leads to a new instant, and its result is the record of its task. -/
theorem Follows.land {p : Pool σ τ} {due : Time} {flight : Flight σ} {rest : Timers (Flight σ)}
    (h : Follows clock tasks p) (hready : p.ready = [])
    (htimers : p.timers = (due, flight) :: rest) :
    Follows clock tasks ({ p with timers := rest }.land due flight) := by
  have htracks := (invariant_tracks _).land h.tracks hready htimers
  have hwaits : p.Waits tasks due flight := h.timers (due, flight) (by simp [htimers])
  obtain ⟨chain, delay, outcome, hreached, htask, rfl, hfinish⟩ := hwaits
  have hpending : flight.index ∈ p.pending := by simp [pending, htimers]
  -- The operation began when the tasks of `chain` were finished, and it is still pending itself.
  have hnew : flight.index ∉ chain := fun hi => h.tracks.not_mem_done hpending (hreached.1 hi)
  have hdone : ({ p with timers := rest }.land (p.clock.after flight.began delay) flight).done =
      p.done ++ [flight.index] := done_record _ _ _
  have hgrow : p.done ⊆ p.done ++ [flight.index] := List.subset_append_left _ _
  refine ⟨htracks, h.clock_eq, ⟨flight.index :: chain, ?_, ?_⟩, ?_, ?_, ?_⟩
  · rw [hdone]
    exact List.cons_subset.2 ⟨by simp, List.Subset.trans hreached.1 hgrow⟩
  · exact .later hreached.2 hnew (by simp [Behaviour.delays, htask, Behaviour.delay])
  · exact h.ready
  · intro timer ht
    exact (h.timers timer (htimers ▸ List.mem_cons_of_mem _ ht)).mono (hdone ▸ hgrow) rfl
  · have hend : Settled clock tasks flight.index (.ofOutcome flight.task (flight.finish p.world).1
        (p.clock.between flight.began (p.clock.after flight.began delay))) := by
      rw [hfinish, Behaviour.ofOutcome_eq_record delay, h.clock_eq]
      exact ⟨flight.task, _, chain, flight.began, htask, h.clock_eq ▸ hreached.2, hnew, rfl⟩
    exact List.forall_mem_append.2 ⟨h.finished, List.forall_mem_singleton.2 hend⟩

theorem invariant_follows : Invariant (τ := τ) (σ := σ) (Follows clock tasks) where
  wake := fun h hready =>
    { h with
      tracks := (invariant_tracks _).wake h.tracks hready
      ready := fun r hr => h.ready r (hready ▸ List.mem_cons_of_mem _ hr) }
  logFailure := fun h hready =>
    { h with
      tracks := (invariant_tracks _).logFailure h.tracks hready
      ready := ends_logFailure h.ready hready }
  conclude := fun {p index result rest} h hready => by
    have hgrow : p.done ⊆ ({ p with ready := rest }.record index result).done := by
      rw [done_record]
      exact List.subset_append_left _ _
    obtain ⟨chain, hnow⟩ := h.now
    exact
      { tracks := (invariant_tracks _).conclude h.tracks hready
        clock_eq := h.clock_eq
        now := ⟨chain, hnow.mono hgrow rfl⟩
        ready := fun r hr => h.ready r (hready ▸ List.mem_cons_of_mem _ hr)
        timers := fun timer ht => (h.timers timer ht).mono hgrow rfl
        finished := by
          have hend : Settled clock tasks index result :=
            h.ready (.conclude index result) (by simp [hready])
          exact List.forall_mem_append.2 ⟨h.finished, List.forall_mem_singleton.2 hend⟩ }
  land := Follows.land
  call := Follows.call

theorem follows_start (world : σ) (observer : Observer τ) (workers : Nat) :
    Follows clock tasks (start clock world observer (Behaviour.jobs tasks) workers) where
  tracks := tracks_start clock world observer _ workers
  clock_eq := rfl
  now := ⟨[], List.nil_subset _, .zero⟩
  ready := fun r hr => by
    rw [List.eq_of_mem_replicate hr]
    trivial
  timers := fun _ ht => absurd ht List.not_mem_nil
  finished := fun _ hx => absurd hx List.not_mem_nil

end Pool

/-! ## Results of a batch -/

variable {σ τ : Type} (clock : Clock) (tasks : List (Task × Behaviour)) (observer : Observer τ)
  (world : σ)

/-- A batch that is not refused gives each task the record of its own operation. -/
theorem Dispatch.exists_settled_results {concurrency : Number}
    (h : tasks = [] ∨ concurrency.isFinite = true) :
    ∃ results, (run clock (Behaviour.jobs tasks) concurrency observer world).outcome = .ok results ∧
      results.length = tasks.length ∧
      ∀ i < tasks.length, ∃ r, results[i]? = some r ∧ Settled clock tasks i r := by
  by_cases htasks : tasks = []
  · subst htasks
    exact ⟨[], rfl, rfl, fun i hi => absurd hi (Nat.not_lt_zero i)⟩
  · have hjobs : (Behaviour.jobs tasks : List (Job σ)) ≠ [] := by
      simpa [Behaviour.jobs] using htasks
    have hlength : (Behaviour.jobs tasks : List (Job σ)).length = tasks.length := by
      simp [Behaviour.jobs]
    obtain ⟨workers, hpos, -, hout, -⟩ :=
      run_of_finite clock _ observer world hjobs (h.resolve_left htasks)
    have hfollows : (Pool.start clock world observer _ workers).Follows clock tasks :=
      Pool.follows_start world observer workers
    obtain ⟨hcount, hget⟩ := Pool.results_run hfollows.tracks
      (Pool.busy_start clock world observer _ hpos)
    rw [hlength] at hcount
    refine ⟨_, hout, hcount, fun i hi => ?_⟩
    have hr := List.getElem?_eq_getElem (hcount.symm ▸ hi)
    exact ⟨_, hr, (Pool.invariant_follows.run hfollows).finished _ ((hget i _).1 hr)⟩

variable {clock tasks}

/-- By a clock that shows sums of the delays, the record of a task has its own delay. -/
theorem Settled.eq_record {i : Nat} {r : TransferResult} {task : Task} {b : Behaviour}
    (h : Settled clock tasks i r) (hclock : clock.ShowsSums (Behaviour.delays tasks))
    (htask : tasks[i]? = some (task, b)) : r = b.record task b.delay := by
  obtain ⟨found, b', chain, began, hget, hinstant, hnew, rfl⟩ := h
  rw [htask] at hget
  cases hget
  cases b with
  | throws error => rfl
  | settles delay outcome =>
    have hdelay : (Behaviour.delays tasks)[i]? = some delay := by
      simp [Behaviour.delays, htask, Behaviour.delay]
    rw [Behaviour.durationFrom, hinstant.between_after hclock hnew hdelay, Behaviour.delay]

theorem eq_records_of_settled {results : List TransferResult}
    (hlength : results.length = tasks.length)
    (h : ∀ i < tasks.length, ∃ r, results[i]? = some r ∧ Settled clock tasks i r)
    (hclock : clock.ShowsSums (Behaviour.delays tasks)) :
    results = tasks.map fun x => x.2.record x.1 x.2.delay := by
  refine List.ext_getElem? fun i => ?_
  by_cases hi : i < tasks.length
  · obtain ⟨r, hr, hsettled⟩ := h i hi
    rw [hr, List.getElem?_map, List.getElem?_eq_getElem hi]
    exact congrArg some (hsettled.eq_record hclock (List.getElem?_eq_getElem hi))
  · rw [List.getElem?_eq_none (by omega), List.getElem?_eq_none (by simpa using hi)]

namespace Dispatch

/-- A batch of tasks with given behaviours resolves with the record of each task, in the order of
the tasks; the duration is the span by the clock from an instant of the batch, which the task itself
had no part in, to the end of the delay.  By a clock that shows sums of the delays it is the delay,
so that neither the concurrency nor the observer has a part in the results.  A batch is rejected
only if there are tasks and the concurrency is not finite; then no operation is called and nothing
is reported. -/
theorem run_behaving (clock : Clock) (tasks : List (Task × Behaviour)) (concurrency : Number)
    (observer : Observer τ) (world : σ) :
    let ran := run clock (Behaviour.jobs tasks) concurrency observer world
    (tasks = [] ∨ concurrency.isFinite = true →
      ∃ results, ran.outcome = .ok results ∧ results.length = tasks.length ∧
        (∀ (i : Nat) (task : Task) (b : Behaviour), tasks[i]? = some (task, b) →
          ∃ chain began, Instant clock (Behaviour.delays tasks) chain began ∧ i ∉ chain ∧
            results[i]? = some ⟨task, b.error?.isNone, b.error?.map Thrown.failureDetail,
              b.durationFrom clock began⟩) ∧
        (clock.ShowsSums (Behaviour.delays tasks) →
          results = tasks.map fun x =>
            ⟨x.1, x.2.error?.isNone, x.2.error?.map Thrown.failureDetail, x.2.delay⟩)) ∧
    (¬ (tasks = [] ∨ concurrency.isFinite = true) →
      ∃ error, ran.outcome = .error error ∧ error.kind = Plain.configuration.name ∧
        ran.events = [] ∧ ran.peak = 0 ∧ ran.world = world) := by
  refine ⟨fun h => ?_, fun h => ?_⟩
  · obtain ⟨results, hout, hlength, hget⟩ :=
      exists_settled_results clock tasks observer world h
    refine ⟨results, hout, hlength, fun i task b htask => ?_, eq_records_of_settled hlength hget⟩
    obtain ⟨r, hr, found, b', chain, began, hfound, hinstant, hnew, rfl⟩ :=
      hget i (List.getElem?_eq_some_iff.1 htask).1
    rw [htask] at hfound
    cases hfound
    exact ⟨chain, began, hinstant, hnew, hr⟩
  · have hjobs : (Behaviour.jobs tasks : List (Job σ)) ≠ [] := by
      simpa [Behaviour.jobs] using fun htasks => h (.inl htasks)
    have hfinite : concurrency.isFinite = false := by simpa using fun hf => h (.inr hf)
    have hrun := run_of_not_finite clock _ observer world hjobs hfinite
    exact ⟨_, congrArg (·.outcome) hrun, rfl, congrArg (·.events) hrun, congrArg (·.peak) hrun,
      congrArg (·.world) hrun⟩

/-- By the machine's clock a duration need not be the delay: one worker that waits for a fifth of a
millisecond and then for a tenth has not waited for a tenth by that clock. -/
theorem not_run_binary_delays :
    ¬ ∀ (tasks : List (Task × Behaviour)) (q : Rat),
      (run .binary (Behaviour.jobs tasks) (.finite q) .silent ()).outcome =
        .ok (tasks.map fun x => x.2.record x.1 x.2.delay) := by
  intro h
  have hrun := congrArg (fun o : Except Thrown (List TransferResult) =>
      o.toOption.map fun results => results.map TransferResult.duration)
    (h [(⟨"c", "a", "/d/a", .upload⟩, .settles (Number.rounded (1 / 5)) (.ok ())),
      (⟨"c", "b", "/d/b", .upload⟩, .settles (Number.rounded (1 / 10)) (.ok ()))] 1)
  revert hrun
  decide +kernel

/-- By the machine's clock the durations of whole delays are these delays. -/
theorem run_binary_whole {concurrency : Number} (hfinite : concurrency.isFinite = true)
    (h : ∀ d ∈ Behaviour.delays tasks, ∃ n : Nat, d = n)
    (hsum : (Behaviour.delays tasks).sum < 2 ^ 53) :
    (run .binary (Behaviour.jobs tasks) concurrency observer world).outcome =
      .ok (tasks.map fun x => x.2.record x.1 x.2.delay) := by
  obtain ⟨results, hout, hlength, hget⟩ :=
    exists_settled_results .binary tasks observer world (.inr hfinite)
  rw [hout, eq_records_of_settled hlength hget (Clock.showsSums_binary h hsum)]

end Dispatch

end BulkTransfer
