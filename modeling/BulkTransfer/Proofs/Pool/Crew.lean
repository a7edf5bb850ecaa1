import Mathlib.Logic.Relation
import BulkTransfer.Proofs.Pool.Bookkeeping

/-!
# How many operations wait

Each worker that still has something to do is ready or waits for a timer.  As long as jobs are left
no worker stops, so all of them are at one of these places (`Crewed`).  So whenever nobody is ready,
the operations that wait are as many as the workers, or as the tasks that are not finished where
these are fewer (`Crewed.timers_eq`).  When it is known of each job whether its operation waits, the
peak of a run follows (`peak_run`).
-/

namespace BulkTransfer

/-- Whether a called operation waits. -/
def Launch.isWaiting {σ : Type} : Launch σ → Bool
  | .waits _ _ => true
  | _ => false

namespace Pool

variable {σ τ : Type} {p next q : Pool σ τ} {jobs : List (Job σ)} {workers : Nat}

/-! ## Moves and reached pools -/

/-- What a move of a pool may be. -/
inductive Move (p : Pool σ τ) : Pool σ τ → Prop
  | wake {rest : List Resume} (h : p.ready = .next :: rest) :
    Move p { p with ready := rest }.takeNext
  | logFailure {index : Nat} {task : Task} {began : Time} {error : Thrown} {rest : List Resume}
    (h : p.ready = .logFailure index task began error :: rest) :
    Move p ({ p with ready := rest }.resume (.logFailure index task began error))
  | conclude {index : Nat} {result : TransferResult} {rest : List Resume}
    (h : p.ready = .conclude index result :: rest) :
    Move p ({ p with ready := rest }.record index result).takeNext
  | land {due : Time} {flight : Flight σ} {rest : Timers (Flight σ)} (hready : p.ready = [])
    (htimers : p.timers = (due, flight) :: rest) :
    Move p ({ p with timers := rest }.land due flight).takeNext

theorem move_of_step? (h : p.step? = some next) : p.Move next := by
  rw [step?] at h
  split at h
  · next r rest hready =>
    cases h
    cases r with
    | next => exact .wake hready
    | logFailure index task began error => exact .logFailure hready
    | conclude index result => exact .conclude hready
  · next due flight rest hready htimers =>
    cases h
    exact .land hready htimers
  · cases h

/-- A pool that is reached from another one by moves. -/
abbrev Reaches (p q : Pool σ τ) : Prop := Relation.ReflTransGen (fun p q => p.step? = some q) p q

/-- What every move keeps holds of all pools that are reached. -/
theorem Reaches.keeps {P : Pool σ τ → Prop}
    (hstep : ∀ {p next : Pool σ τ}, P p → p.step? = some next → P next) (h : p.Reaches q)
    (hp : P p) : P q := by
  induction h with
  | refl => exact hp
  | tail _ hs ih => exact hstep ih hs

theorem reaches_run (p : Pool σ τ) : p.Reaches p.run :=
  run_of_step? (P := p.Reaches) (fun h hs => h.tail hs) .refl

/-! ## The crew -/

/-- The number of workers that are ready or wait. -/
def crew (p : Pool σ τ) : Nat := p.ready.length + p.timers.length

theorem crew_launched (p : Pool σ τ) (index : Nat) (task : Task) (launch : Launch σ) :
    (p.launched index task launch).crew = p.crew + 1 := by
  cases launch <;> simp [launched, enqueue, wait, emit, crew, Timers.length_set] <;> omega

theorem crew_call (p : Pool σ τ) (index : Nat) (job : Job σ) (rest : List (Nat × Job σ)) :
    (p.call index job rest).crew = p.crew + 1 :=
  crew_launched _ _ _ _

theorem peak_launched_le (p : Pool σ τ) (index : Nat) (task : Task) (launch : Launch σ) :
    (p.launched index task launch).peak ≤ max p.peak (p.launched index task launch).crew := by
  cases launch with
  | throws error => exact Nat.le_max_left _ _
  | refused error => exact Nat.le_max_left _ _
  | waits delay finish =>
    simp only [launched, wait, crew]
    omega

/-- No more workers than there are, and all of them while jobs are left. -/
structure Crewed (workers : Nat) (p : Pool σ τ) : Prop where
  crew_le : p.crew ≤ workers
  crew_eq : p.unstarted ≠ [] → p.crew = workers
  peak_le : p.peak ≤ workers

theorem crewed_start (clock : Clock) (world : σ) (observer : Observer τ) (jobs : List (Job σ))
    (workers : Nat) : Crewed workers (start clock world observer jobs workers) := by
  constructor <;> simp [start, crew]

/-- A worker that leaves its place to take the next job, if there is one, keeps the crew. -/
theorem Crewed.takeNext (h : Crewed workers p) (hcrew : q.crew + 1 = p.crew)
    (hunstarted : q.unstarted = p.unstarted) (hpeak : q.peak = p.peak) :
    Crewed workers q.takeNext := by
  obtain ⟨hle, heq, hmax⟩ := h
  rcases hu : q.unstarted with _ | ⟨⟨index, job⟩, rest⟩
  · rw [takeNext_of_nil hu]
    refine ⟨by omega, fun hne => absurd hu hne, ?_⟩
    rw [hpeak]
    exact hmax
  · have hall : (q.call index job rest).crew = workers := by
      rw [crew_call, hcrew]
      exact heq (by simp [← hunstarted, hu])
    have hcall := peak_launched_le (q.called job rest) index job.task (job.call q.world).1
    have hcalled : (q.called job rest).peak = p.peak := hpeak
    rw [← call, hall, hcalled] at hcall
    rw [takeNext_of_cons hu]
    exact ⟨by omega, fun _ => hall, by omega⟩

theorem Crewed.move (h : Crewed workers p) (hm : p.Move next) : Crewed workers next := by
  cases hm with
  | wake hready =>
    refine h.takeNext ?_ rfl rfl
    simp only [crew, hready, List.length_cons]
    omega
  | logFailure hready =>
    obtain ⟨hle, heq, hpeak⟩ := h
    simp only [crew, hready, List.length_cons] at hle heq
    constructor
    · simp only [resume, enqueue, emit, crew, List.length_append, List.length_singleton]
      omega
    · intro hu
      simp only [resume, enqueue, emit, crew, List.length_append, List.length_singleton]
      exact heq hu
    · exact hpeak
  | conclude hready =>
    refine h.takeNext ?_ rfl rfl
    simp only [record, emit, crew, hready, List.length_cons]
    omega
  | land hready htimers =>
    refine h.takeNext ?_ rfl rfl
    simp only [land, record, emit, crew, htimers, List.length_cons]
    omega

/-- Whenever nobody is ready, each worker waits, or each task that is not finished. -/
theorem Crewed.timers_eq (h : Crewed workers p) (htracks : Tracks jobs p) (hready : p.ready = []) :
    p.timers.length = min workers (jobs.length - p.finished.length) := by
  obtain ⟨hle, heq, -⟩ := h
  have hplaces := htracks.perm.length_eq
  have hstarted := htracks.started_le
  simp only [done, pending, hready, List.filterMap_nil, List.nil_append, List.length_append,
    List.length_map, List.length_range] at hplaces
  simp only [crew, hready, List.length_nil, Nat.zero_add] at hle heq
  have htotal : p.started = jobs.length - p.unstarted.length := by rw [started, htracks.total]
  rcases hu : p.unstarted with _ | ⟨next, rest⟩
  · rw [hu, List.length_nil] at htotal
    omega
  · have := heq (by simp [hu])
    omega

/-! ## The peak -/

/-- The number of called jobs whose operations wait. -/
def waiters (waits : Job σ → Bool) (jobs : List (Job σ)) (p : Pool σ τ) : Nat :=
  (jobs.take p.started).countP waits

/-- The peak counts operations that wait.  It counts all that have been called until the first of
them lands, and from then on it is as great as it will ever be. -/
structure Counted (waits : Job σ → Bool) (jobs : List (Job σ)) (workers : Nat) (p : Pool σ τ) :
    Prop where
  tracks : Tracks jobs p
  timers_le : p.timers.length ≤ p.peak
  peak_le : p.peak ≤ waiters waits jobs p
  reached : p.timers.length = waiters waits jobs p ∨ min workers (jobs.countP waits) ≤ p.peak

variable {waits : Job σ → Bool}

theorem counted_start (clock : Clock) (world : σ) (observer : Observer τ) (jobs : List (Job σ))
    (workers : Nat) : Counted waits jobs workers (start clock world observer jobs workers) where
  tracks := tracks_start clock world observer jobs workers
  timers_le := Nat.le_refl _
  peak_le := Nat.zero_le _
  reached := .inl (by simp [start, waiters, started])

theorem waiters_le (waits : Job σ → Bool) (jobs : List (Job σ)) (p : Pool σ τ) :
    waiters waits jobs p ≤ jobs.countP waits :=
  (List.take_sublist _ _).countP_le

theorem waiters_call (waits : Job σ → Bool) {index : Nat} {job : Job σ}
    {rest : List (Nat × Job σ)} (h : Tracks jobs p) (hu : p.unstarted = (index, job) :: rest) :
    waiters waits jobs (p.call index job rest) =
      waiters waits jobs p + if waits job then 1 else 0 := by
  obtain ⟨-, hjob, -, -⟩ := h.next_job hu
  rw [waiters, waiters, started_call h hu, List.take_add_one, hjob, List.countP_append]
  simp

/-- A called operation that waits sets one timer, and the peak counts it; any other sets none. -/
theorem timers_call_eq (p : Pool σ τ) (index : Nat) (job : Job σ) (rest : List (Nat × Job σ)) :
    let q := p.call index job rest
    if (job.call p.world).1.isWaiting then
      q.timers.length = p.timers.length + 1 ∧ q.peak = max p.peak q.timers.length
    else q.timers.length = p.timers.length ∧ q.peak = p.peak := by
  intro q
  simp only [q, call]
  cases (job.call p.world).1 with
  | throws error => exact ⟨rfl, rfl⟩
  | refused error => exact ⟨rfl, rfl⟩
  | waits delay finish => exact ⟨Timers.length_set _ _ _, rfl⟩

theorem Counted.call (h : Counted waits jobs workers p)
    (hwaits : ∀ job ∈ jobs, ∀ w, (job.call w).1.isWaiting = waits job) {index : Nat} {job : Job σ}
    {rest : List (Nat × Job σ)} (hu : p.unstarted = (index, job) :: rest) :
    Counted waits jobs workers (p.call index job rest) := by
  obtain ⟨htracks, htimers, hpeak, hreached⟩ := h
  have hnext := (invariant_tracks jobs).call htracks hu
  have hcalled := waiters_call waits htracks hu
  have hset := timers_call_eq p index job rest
  rw [← hwaits job (List.mem_of_getElem? (htracks.next_job hu).2.1) p.world] at hcalled
  cases hw : (job.call p.world).1.isWaiting with
  | false =>
    simp only [hw, Bool.false_eq_true, if_false] at hcalled hset
    obtain ⟨hlength, hsame⟩ := hset
    exact ⟨hnext, by omega, by omega, by omega⟩
  | true =>
    simp only [hw, if_true] at hcalled hset
    obtain ⟨hlength, hmax⟩ := hset
    exact ⟨hnext, by omega, by omega, by omega⟩

theorem Counted.takeNext (h : Counted waits jobs workers p)
    (hwaits : ∀ job ∈ jobs, ∀ w, (job.call w).1.isWaiting = waits job) :
    Counted waits jobs workers p.takeNext := by
  rcases hu : p.unstarted with _ | ⟨⟨index, job⟩, rest⟩
  · rwa [takeNext_of_nil hu]
  · rw [takeNext_of_cons hu]
    exact h.call hwaits hu

/-- When the first operation lands, all workers wait, or all operations that ever wait do. -/
theorem Counted.land (h : Counted waits jobs workers p) (hcrewed : Crewed workers p) {due : Time}
    {flight : Flight σ} {rest : Timers (Flight σ)} (hready : p.ready = [])
    (htimers : p.timers = (due, flight) :: rest) :
    Counted waits jobs workers ({ p with timers := rest }.land due flight) := by
  obtain ⟨htracks, hle, hpeak, hreached⟩ := h
  have hlength : rest.length + 1 = p.timers.length := by rw [htimers, List.length_cons]
  refine ⟨(invariant_tracks jobs).land htracks hready htimers, ?_, hpeak, .inr ?_⟩
  · change rest.length ≤ p.peak
    omega
  · change min workers (jobs.countP waits) ≤ p.peak
    rcases hreached with hall | hdone
    · by_cases hu : p.unstarted = []
      · have hstarted : p.started = jobs.length := by
          rw [started, hu, htracks.total]
          rfl
        rw [waiters, hstarted, List.take_length] at hall
        omega
      · have hcrew := hcrewed.crew_eq hu
        simp only [crew, hready, List.length_nil] at hcrew
        omega
    · exact hdone

theorem Counted.move (h : Counted waits jobs workers p) (hcrewed : Crewed workers p)
    (hwaits : ∀ job ∈ jobs, ∀ w, (job.call w).1.isWaiting = waits job) (hm : p.Move next) :
    Counted waits jobs workers next := by
  cases hm with
  | wake hready =>
    have hwoken := (invariant_tracks jobs).wake h.tracks hready
    exact { h with tracks := hwoken : Counted waits jobs workers _ }.takeNext hwaits
  | logFailure hready =>
    exact { h with tracks := (invariant_tracks jobs).logFailure h.tracks hready }
  | conclude hready =>
    have hconcluded := (invariant_tracks jobs).conclude h.tracks hready
    exact { h with tracks := hconcluded : Counted waits jobs workers _ }.takeNext hwaits
  | land hready htimers => exact (h.land hcrewed hready htimers).takeNext hwaits

/-- The peak of a run is the number of workers, or that of the operations that wait. -/
theorem peak_run (clock : Clock) (world : σ) (observer : Observer τ) {jobs : List (Job σ)}
    {workers : Nat} (hbusy : (start clock world observer jobs workers).Busy)
    (hwaits : ∀ job ∈ jobs, ∀ w, (job.call w).1.isWaiting = waits job) :
    (start clock world observer jobs workers).run.peak = min workers (jobs.countP waits) := by
  have hend : ∀ q, (start clock world observer jobs workers).Reaches q →
      Crewed workers q ∧ Counted waits jobs workers q := by
    intro q hq
    refine hq.keeps (P := fun p => Crewed workers p ∧ Counted waits jobs workers p) ?_
      ⟨crewed_start clock world observer jobs workers,
        counted_start clock world observer jobs workers⟩
    intro p next hp hs
    have hm := move_of_step? hs
    exact ⟨hp.1.move hm, hp.2.move hp.1 hwaits hm⟩
  obtain ⟨hcrewed, hcounted⟩ := hend _ (reaches_run _)
  obtain ⟨-, -, htimers⟩ := run_drained hbusy
  have hmax := hcrewed.peak_le
  have hle := hcounted.peak_le
  have hmost := waiters_le waits jobs (start clock world observer jobs workers).run
  rcases hcounted.reached with hnone | hdone
  · -- Nothing has ever waited: none of the operations does.
    rw [htimers, List.length_nil] at hnone
    have hstarted := started_run (tracks_start clock world observer jobs workers) hbusy
    rw [waiters, hstarted, List.take_length] at hnone hle
    omega
  · omega

end Pool

end BulkTransfer
