import BulkTransfer.Proofs.Pool.Crew

/-!
# One worker is a loop

A plain loop performs one job after the other: it calls the operation, waits for its end, logs a
failure, counts the task and tells the observer.  A pool with a single worker does the same.  What
it does from one job to the next is one turn of the loop (`reaches_turn`), so its run leaves what
the loop leaves (`run_single`).
-/

namespace BulkTransfer

/-- Where a loop over jobs has come to. -/
structure Loop (σ τ : Type) where
  world : σ
  observer : Observer τ
  now : Time
  results : List TransferResult
  events : List Event

namespace Loop

variable {σ τ : Type}

def start (world : σ) (observer : Observer τ) : Loop σ τ := ⟨world, observer, 0, [], []⟩

def emit (l : Loop σ τ) (events : List Event) : Loop σ τ := { l with events := l.events ++ events }

/-- The operation of a job is called and waited for, and its failure is logged. -/
def perform (clock : Clock) (l : Loop σ τ) (job : Job σ) : TransferResult × Loop σ τ :=
  let began := { l with world := (job.call l.world).2 }.emit [.started job.task.objectName l.now]
  match (job.call l.world).1 with
  | .throws error =>
    (.failure job.task error 0, began.emit [Pool.failureLine job.task error])
  | .refused error =>
    (.failure job.task error (clock.between l.now l.now),
      began.emit [Pool.failureLine job.task error])
  | .waits delay finish =>
    let due := clock.after l.now delay
    let (outcome, world) := finish began.world
    (.ofOutcome job.task outcome (clock.between l.now due),
      { began with world, now := due }.emit (Pool.failureLines job.task outcome))

/-- A result is counted and the observer hears of it. -/
def report (total : Nat) (l : Loop σ τ) (result : TransferResult) : Loop σ τ :=
  let results := l.results ++ [result]
  let (notice, state) := l.observer.react ⟨result, results.length, total, l.now⟩ l.observer.state
  { l with results, observer := { l.observer with state } }.emit (Pool.noticeEvents notice)

/-- One job, from its call to the report on it. -/
def turn (clock : Clock) (total : Nat) (l : Loop σ τ) (job : Job σ) : Loop σ τ :=
  let (result, ended) := l.perform clock job
  ended.report total result

/-- The loop over all jobs. -/
def run (clock : Clock) (world : σ) (observer : Observer τ) (jobs : List (Job σ)) : Loop σ τ :=
  jobs.foldl (turn clock jobs.length) (start world observer)

theorem length_results_turn (clock : Clock) (total : Nat) (l : Loop σ τ) (job : Job σ) :
    (l.turn clock total job).results.length = l.results.length + 1 := by
  have hperform : (l.perform clock job).2.results = l.results := by
    unfold perform
    cases (job.call l.world).1 <;> rfl
  simp [turn, report, emit, hperform]

end Loop

namespace Pool

variable {σ τ : Type}

/-! ## Runs that pass through a pool -/

theorem drive_of_step?_eq_none {p : Pool σ τ} (h : p.step? = none) (moves : Nat) :
    drive moves p = p := by
  cases moves with
  | zero => rfl
  | succ moves => rw [drive, h]

/-- More moves than the load change nothing. -/
theorem drive_eq_drive {moves more : Nat} {p : Pool σ τ} (h : p.load ≤ moves)
    (hmore : p.load ≤ more) : drive moves p = drive more p := by
  induction moves generalizing more p with
  | zero =>
    have hnone : (drive 0 p).step? = none := step?_drive h
    exact (drive_of_step?_eq_none hnone more).symm
  | succ moves ih =>
    cases hstep : p.step? with
    | none => rw [drive_of_step?_eq_none hstep, drive_of_step?_eq_none hstep]
    | some next =>
      have hload := load_lt_of_step? hstep
      cases more with
      | zero => omega
      | succ more =>
        rw [drive, drive, hstep]
        exact ih (by omega) (by omega)

theorem run_of_next {p next : Pool σ τ} (h : p.step? = some next) : p.run = next.run := by
  have hload := load_lt_of_step? h
  have hsucc : drive p.load p = drive (p.load + 1) p :=
    drive_eq_drive (Nat.le_refl _) (Nat.le_succ _)
  unfold run
  rw [hsucc, drive, h]
  exact drive_eq_drive (by omega) (Nat.le_refl _)

theorem Reaches.run_eq {p q : Pool σ τ} (h : p.Reaches q) : p.run = q.run := by
  induction h with
  | refl => rfl
  | tail _ hstep ih => rw [ih, run_of_next hstep]

end Pool

namespace Loop

variable {σ τ : Type} (clock : Clock) (total : Nat)

/-! ## The pool of a single worker -/

/-- The pool whose one worker is between two jobs, where the loop has come to. -/
def pool (l : Loop σ τ) (unstarted : List (Nat × Job σ)) (peak : Nat) : Pool σ τ :=
  { world := l.world
    observer := l.observer
    total
    clock
    now := l.now
    unstarted
    ready := []
    timers := []
    finished := l.results.zipIdx.map fun (result, index) => (index, result)
    events := l.events
    peak }

theorem record_pool (l : Loop σ τ) (unstarted : List (Nat × Job σ)) (peak : Nat)
    (result : TransferResult) :
    (l.pool clock total unstarted peak).record l.results.length result =
      (l.report total result).pool clock total unstarted peak := by
  simp [Pool.record, Pool.emit, pool, report, emit, List.zipIdx_append]

/-- The worker takes the next job, and comes back to where the loop is after that job. -/
theorem reaches_turn (l : Loop σ τ) (job : Job σ) (rest : List (Nat × Job σ)) (peak : Nat) :
    ∃ peak', (l.pool clock total ((l.results.length, job) :: rest) peak).takeNext.Reaches
      ((l.turn clock total job).pool clock total rest peak').takeNext := by
  rw [Pool.takeNext_of_cons rfl]
  unfold Pool.call turn perform
  let began := { l with world := (job.call l.world).2 }.emit [.started job.task.objectName l.now]
  show ∃ peak', ((began.pool clock total rest peak).launched _ _ (job.call l.world).1).Reaches _
  cases (job.call l.world).1 with
  | throws error =>
    let logged := began.emit [Pool.failureLine job.task error]
    refine ⟨peak, .single ?_⟩
    show some ((logged.pool clock total rest peak).record _ _).takeNext = _
    exact congrArg (some ·.takeNext) (record_pool clock total logged rest peak _)
  | refused error =>
    let logged := began.emit [Pool.failureLine job.task error]
    refine ⟨peak, .tail (.single rfl) ?_⟩
    show some ((logged.pool clock total rest peak).record _ _).takeNext = _
    exact congrArg (some ·.takeNext) (record_pool clock total logged rest peak _)
  | waits delay finish =>
    let landed := { began with
      world := (finish began.world).2, now := clock.after l.now delay }.emit
        (Pool.failureLines job.task (finish began.world).1)
    refine ⟨max peak 1, .single ?_⟩
    show some ((landed.pool clock total rest (max peak 1)).record _ _).takeNext = _
    exact congrArg (some ·.takeNext) (record_pool clock total landed rest _ _)

/-- A worker that has jobs left runs through them as the loop does. -/
theorem run_pool (l : Loop σ τ) (jobs : List (Job σ)) (peak : Nat) :
    ∃ peak', (l.pool clock total ((jobs.zipIdx l.results.length).map fun (job, index) =>
      (index, job)) peak).takeNext.run = (jobs.foldl (turn clock total) l).pool clock total []
        peak' := by
  induction jobs generalizing l peak with
  | nil =>
    refine ⟨peak, ?_⟩
    rw [Pool.takeNext_of_nil rfl]
    exact Pool.drive_of_step?_eq_none rfl _
  | cons job rest ih =>
    obtain ⟨middle, hturn⟩ := reaches_turn clock total l job
      ((rest.zipIdx (l.results.length + 1)).map fun (job, index) => (index, job)) peak
    obtain ⟨peak', hrest⟩ := ih (l.turn clock total job) middle
    rw [length_results_turn] at hrest
    refine ⟨peak', ?_⟩
    rw [List.zipIdx_cons, List.map_cons, hturn.run_eq]
    exact hrest

/-- A pool with a single worker ends where the loop ends. -/
theorem run_single (world : σ) (observer : Observer τ) (jobs : List (Job σ)) :
    ∃ peak, (Pool.start clock world observer jobs 1).run =
      (run clock world observer jobs).pool clock jobs.length [] peak := by
  obtain ⟨peak, hrun⟩ := run_pool clock jobs.length (start world observer) jobs 0
  refine ⟨peak, ?_⟩
  rw [Pool.run_of_next (p := Pool.start clock world observer jobs 1) rfl]
  exact hrun

/-- The results of such a pool are those of the loop. -/
theorem results_single (world : σ) (observer : Observer τ) (jobs : List (Job σ)) :
    (Pool.start clock world observer jobs 1).run.results =
      (run clock world observer jobs).results := by
  have htracks := Pool.tracks_start clock world observer jobs 1
  have hbusy := Pool.busy_start clock world observer jobs Nat.one_pos
  obtain ⟨-, hget⟩ := Pool.results_run htracks hbusy
  obtain ⟨peak, hrun⟩ := run_single clock world observer jobs
  refine List.ext_getElem? fun i => Option.ext fun r => ?_
  rw [hget i r, hrun, ← List.mk_mem_zipIdx_iff_getElem?]
  constructor
  · intro h
    obtain ⟨entry, hentry, heq⟩ := List.mem_map.1 h
    obtain ⟨rfl, rfl⟩ := Prod.mk.inj heq
    exact hentry
  · exact fun h => List.mem_map.2 ⟨_, h, rfl⟩

end Loop

end BulkTransfer
