import BulkTransfer.Proofs.Pool.Bookkeeping

/-!
# What operations keep

Only the operations of the jobs touch the world.  So a property of the world and the finished tasks
that every call and every end of an operation keeps holds at the end of a run (`Keeps.run`); the
schedule of the workers does not matter.  In particular each result is one that the task's own
operation gives (`yields_of_run`).
-/

namespace BulkTransfer

/-- Whatever a ready worker is about to conclude satisfies `ends`. -/
def Resume.Ends (ends : Nat → TransferResult → Prop) : Resume → Prop
  | .next => True
  | .logFailure index task _ error => ∀ duration, ends index (.failure task error duration)
  | .conclude index result => ends index result

theorem Resume.Ends.mono {ends more : Nat → TransferResult → Prop} {r : Resume} (h : r.Ends ends)
    (hmore : ∀ i result, ends i result → more i result) : r.Ends more := by
  cases r with
  | next => trivial
  | logFailure index task began error => exact fun duration => hmore _ _ (h duration)
  | conclude index result => exact hmore _ _ h

namespace Pool

/-- Once the failure of a task is logged, the worker concludes it with a result as good as any. -/
theorem ends_logFailure {σ τ : Type} {ends : Nat → TransferResult → Prop} {p : Pool σ τ}
    {index : Nat} {task : Task} {began : Time} {error : Thrown} {rest : List Resume}
    (h : ∀ r ∈ p.ready, r.Ends ends)
    (hready : p.ready = .logFailure index task began error :: rest) :
    ∀ r ∈ ({ p with ready := rest }.resume (.logFailure index task began error)).ready,
      r.Ends ends := by
  rw [hready, List.forall_mem_cons] at h
  exact List.forall_mem_append.2 ⟨h.2, List.forall_mem_singleton.2 (h.1 _)⟩

variable {σ τ : Type} {clock : Clock} {jobs : List (Job σ)}
  {kept : σ → List (Nat × TransferResult) → Prop} {ends : σ → Nat → TransferResult → Prop}
  {flies : Time → Flight σ → Prop}

/-- The operations of jobs keep `kept`, a property of the world and the finished tasks.  What a
called operation leaves to be concluded satisfies `ends`, which later operations leave as it is, and
what it leaves waiting satisfies `flies`; both give `kept` back in the end. -/
structure Keeps (clock : Clock) (jobs : List (Job σ))
    (kept : σ → List (Nat × TransferResult) → Prop) (ends : σ → Nat → TransferResult → Prop)
    (flies : Time → Flight σ → Prop) : Prop where
  call : ∀ {n : Nat} {w finished} {job : Job σ}, jobs[n]? = some job → kept w finished →
    kept (job.call w).2 finished
  throws : ∀ {n : Nat} {w error} {job : Job σ}, jobs[n]? = some job →
    (job.call w).1 = .throws error → ends (job.call w).2 n (.failure job.task error 0)
  refused : ∀ {n : Nat} {w error} {job : Job σ}, jobs[n]? = some job →
    (job.call w).1 = .refused error →
    ∀ duration, ends (job.call w).2 n (.failure job.task error duration)
  waits : ∀ {n : Nat} {w delay finish} {job : Job σ}, jobs[n]? = some job →
    (job.call w).1 = .waits delay finish →
    ∀ now, flies (clock.after now delay) ⟨n, job.task, now, finish⟩
  ends_call : ∀ {n i : Nat} {w r} {job : Job σ}, jobs[n]? = some job → ends w i r →
    ends (job.call w).2 i r
  ends_land : ∀ {due i w r} {flight : Flight σ}, flies due flight → ends w i r →
    ends (flight.finish w).2 i r
  conclude : ∀ {n : Nat} {w result finished}, ends w n result → kept w finished →
    kept w (finished ++ [(n, result)])
  land : ∀ {due w finished} {flight : Flight σ}, flies due flight → kept w finished →
    kept (flight.finish w).2 (finished ++ [(flight.index,
      .ofOutcome flight.task (flight.finish w).1 (clock.between flight.began due))])

/-- A pool at which `kept` holds and all that is pending is as it should be. -/
structure Carries (clock : Clock) (jobs : List (Job σ))
    (kept : σ → List (Nat × TransferResult) → Prop) (ends : σ → Nat → TransferResult → Prop)
    (flies : Time → Flight σ → Prop) (p : Pool σ τ) : Prop where
  tracks : Tracks jobs p
  clock_eq : p.clock = clock
  holds : kept p.world p.finished
  ready : ∀ r ∈ p.ready, r.Ends (ends p.world)
  timers : ∀ timer ∈ p.timers, flies timer.1 timer.2

theorem Carries.call (hk : Keeps clock jobs kept ends flies) {p : Pool σ τ} {index : Nat}
    {job : Job σ} {rest : List (Nat × Job σ)} (h : Carries clock jobs kept ends flies p)
    (hu : p.unstarted = (index, job) :: rest) :
    Carries clock jobs kept ends flies (p.call index job rest) := by
  have htracks := (invariant_tracks jobs).call h.tracks hu
  obtain ⟨rfl, hjob, -, -⟩ := h.tracks.next_job hu
  have hholds := hk.call hjob h.holds
  have hready : ∀ r ∈ p.ready, r.Ends (ends (job.call p.world).2) :=
    fun r hr => (h.ready r hr).mono fun _ _ => hk.ends_call hjob
  -- The world is the same in all cases; they differ in what the launch leaves pending.
  rw [Pool.call] at htracks ⊢
  cases hl : (job.call p.world).1 with
  | throws error =>
    rw [hl] at htracks
    have hend : (Resume.conclude _ _).Ends _ := hk.throws hjob hl
    exact ⟨htracks, h.clock_eq, hholds,
      List.forall_mem_append.2 ⟨hready, List.forall_mem_singleton.2 hend⟩, h.timers⟩
  | refused error =>
    rw [hl] at htracks
    have hend : (Resume.logFailure _ _ p.now _).Ends _ := hk.refused hjob hl
    exact ⟨htracks, h.clock_eq, hholds,
      List.forall_mem_append.2 ⟨hready, List.forall_mem_singleton.2 hend⟩, h.timers⟩
  | waits delay finish =>
    rw [hl] at htracks
    refine ⟨htracks, h.clock_eq, hholds, hready, fun timer ht => ?_⟩
    rcases Timers.mem_set.1 ht with rfl | ht
    · have hflies := hk.waits hjob hl p.now
      rwa [← h.clock_eq] at hflies
    · exact h.timers timer ht

theorem Keeps.invariant (hk : Keeps clock jobs kept ends flies) :
    Invariant (τ := τ) (Carries clock jobs kept ends flies) where
  wake := fun h hready =>
    { h with
      tracks := (invariant_tracks jobs).wake h.tracks hready
      ready := fun r hr => h.ready r (hready ▸ List.mem_cons_of_mem _ hr) }
  logFailure := fun h hready =>
    { h with
      tracks := (invariant_tracks jobs).logFailure h.tracks hready
      ready := ends_logFailure h.ready hready }
  conclude := fun {_ index result _} h hready =>
    { h with
      tracks := (invariant_tracks jobs).conclude h.tracks hready
      holds := hk.conclude (h.ready (.conclude index result) (by simp [hready])) h.holds
      ready := fun r hr => h.ready r (hready ▸ List.mem_cons_of_mem _ hr) }
  land := fun {p due flight rest} h hready htimers => by
    have hflies : flies due flight := h.timers (due, flight) (by simp [htimers])
    exact
      { h with
        tracks := (invariant_tracks jobs).land h.tracks hready htimers
        holds := by
          have hholds := hk.land hflies h.holds
          rwa [← h.clock_eq] at hholds
        ready := fun r hr => (h.ready r hr).mono fun _ _ => hk.ends_land hflies
        timers := fun timer ht => h.timers timer (htimers ▸ List.mem_cons_of_mem _ ht) }
  call := Carries.call hk

theorem Keeps.run (hk : Keeps clock jobs kept ends flies) {world : σ} (h : kept world [])
    (observer : Observer τ) (workers : Nat) :
    kept (start clock world observer jobs workers).run.world
      (start clock world observer jobs workers).run.finished := by
  refine (hk.invariant.run ?_).holds
  exact
    { tracks := tracks_start clock world observer jobs workers
      clock_eq := rfl
      holds := h
      ready := fun r hr => by
        rw [List.eq_of_mem_replicate hr]
        trivial
      timers := fun _ ht => absurd ht List.not_mem_nil }

end Pool

/-! ## Results are those of the task's own operation -/

/-- A result that the operation of a job may give. -/
inductive Job.Yields {σ : Type} (job : Job σ) : TransferResult → Prop
  | throws {w : σ} {error : Thrown} (h : (job.call w).1 = .throws error) :
    Yields job (.failure job.task error 0)
  | refused {w : σ} {error : Thrown} (h : (job.call w).1 = .refused error) (duration : Time) :
    Yields job (.failure job.task error duration)
  | waits {w : σ} {delay : Time} {finish : σ → Except Thrown Unit × σ}
    (h : (job.call w).1 = .waits delay finish) (w' : σ) (duration : Time) :
    Yields job (.ofOutcome job.task (finish w').1 duration)

theorem TransferResult.task_ofOutcome (task : Task) (outcome : Except Thrown Unit)
    (duration : Time) : (ofOutcome task outcome duration).task = task := by
  cases outcome <;> rfl

theorem TransferResult.isNone_detail_ofOutcome (task : Task) (outcome : Except Thrown Unit)
    (duration : Time) :
    (ofOutcome task outcome duration).detail.isNone =
      (ofOutcome task outcome duration).succeeded := by
  cases outcome <;> rfl

theorem Job.Yields.task_eq {σ : Type} {job : Job σ} {r : TransferResult} (h : job.Yields r) :
    r.task = job.task := by
  cases h with
  | throws => rfl
  | refused => rfl
  | waits => exact TransferResult.task_ofOutcome _ _ _

/-- A result has a failure detail exactly when it is no success. -/
theorem Job.Yields.isNone_detail {σ : Type} {job : Job σ} {r : TransferResult} (h : job.Yields r) :
    r.detail.isNone = r.succeeded := by
  cases h with
  | throws => rfl
  | refused => rfl
  | waits => exact TransferResult.isNone_detail_ofOutcome _ _ _

namespace Pool

variable {σ τ : Type}

theorem keeps_yields (clock : Clock) (jobs : List (Job σ)) :
    Keeps clock jobs
      (fun _ finished => ∀ x ∈ finished, ∃ job, jobs[x.1]? = some job ∧ job.Yields x.2)
      (fun _ n r => ∃ job, jobs[n]? = some job ∧ job.Yields r)
      (fun _ flight => ∃ job, jobs[flight.index]? = some job ∧
        ∀ w duration, job.Yields (.ofOutcome flight.task (flight.finish w).1 duration)) where
  call := fun _ h => h
  throws := fun hjob hl => ⟨_, hjob, .throws hl⟩
  refused := fun hjob hl duration => ⟨_, hjob, .refused hl duration⟩
  waits := fun hjob hl _ => ⟨_, hjob, fun w duration => .waits hl w duration⟩
  ends_call := fun _ h => h
  ends_land := fun _ h => h
  conclude := fun hends h => List.forall_mem_append.2 ⟨h, List.forall_mem_singleton.2 hends⟩
  land := fun hflies h => by
    obtain ⟨job, hjob, hyields⟩ := hflies
    exact List.forall_mem_append.2 ⟨h, List.forall_mem_singleton.2 ⟨job, hjob, hyields _ _⟩⟩

end Pool

end BulkTransfer
