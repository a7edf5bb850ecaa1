import BulkTransfer.OrderedMap
import BulkTransfer.Proofs.Pool.Invariant

/-!
# Which tasks are where

Jobs are called in their order, and each task that has been called is at one place: it is finished,
a worker is about to conclude it, or its operation waits.  `Tracks` says so by the indices of the
jobs.  At the end of a run each index is finished, so there is one result for each job
(`results_run`).
-/

namespace BulkTransfer

/-- The task that a ready worker is about to conclude, by its index. -/
def Resume.index? : Resume → Option Nat
  | .next => none
  | .logFailure index _ _ _ => some index
  | .conclude index _ => some index

namespace Pool

variable {σ τ : Type}

/-! ## Jobs and their indices -/

def indexed (jobs : List (Job σ)) : List (Nat × Job σ) :=
  jobs.zipIdx.map fun (job, index) => (index, job)

theorem getElem?_indexed (jobs : List (Job σ)) (i : Nat) :
    (indexed jobs)[i]? = jobs[i]?.map fun job => (i, job) := by
  simp [indexed, List.getElem?_zipIdx, Function.comp_def]

theorem length_indexed (jobs : List (Job σ)) : (indexed jobs).length = jobs.length := by
  simp [indexed]

def started (p : Pool σ τ) : Nat := p.total - p.unstarted.length

/-- The tasks that are called and not finished, by their indices. -/
def pending (p : Pool σ τ) : List Nat :=
  p.ready.filterMap Resume.index? ++ p.timers.map fun timer => timer.2.index

/-- The finished tasks by their indices, in the order in which they were finished. -/
def done (p : Pool σ τ) : List Nat := p.finished.map Prod.fst

/-- A pool has called the first jobs of a list, each once, and each task that it has called is
finished or pending. -/
structure Tracks (jobs : List (Job σ)) (p : Pool σ τ) : Prop where
  total : p.total = jobs.length
  unstarted : p.unstarted = (indexed jobs).drop p.started
  perm : (p.done ++ p.pending).Perm (List.range p.started)

theorem tracks_start (clock : Clock) (world : σ) (observer : Observer τ) (jobs : List (Job σ))
    (workers : Nat) : Tracks jobs (start clock world observer jobs workers) where
  total := rfl
  unstarted := by simp [start, started, indexed]
  perm := by simp [start, started, done, pending, List.filterMap_replicate, Resume.index?]

namespace Tracks

variable {jobs : List (Job σ)} {p : Pool σ τ} {index : Nat} {job : Job σ}
  {rest : List (Nat × Job σ)}

theorem started_le (h : Tracks jobs p) : p.started ≤ jobs.length := by
  rw [started, h.total]
  exact Nat.sub_le _ _

/-- The next job is the one whose index is the number of called jobs. -/
theorem next_job (h : Tracks jobs p) (hu : p.unstarted = (index, job) :: rest) :
    index = p.started ∧ jobs[p.started]? = some job ∧
      rest = (indexed jobs).drop (p.started + 1) ∧ p.total - rest.length = p.started + 1 := by
  have hdrop := h.unstarted
  rw [hu] at hdrop
  have hhead : (indexed jobs)[p.started]? = some (index, job) := by
    have := congrArg (·[0]?) hdrop
    simpa using this.symm
  have htail : rest = (indexed jobs).drop (p.started + 1) := by
    have := congrArg List.tail hdrop
    simpa using this
  rw [getElem?_indexed, Option.map_eq_some_iff] at hhead
  obtain ⟨found, hfound, hpair⟩ := hhead
  obtain ⟨rfl, rfl⟩ := Prod.mk.inj hpair
  refine ⟨rfl, hfound, htail, ?_⟩
  have hlt : p.started < jobs.length := (List.getElem?_eq_some_iff.1 hfound).1
  rw [htail, List.length_drop, length_indexed, h.total]
  omega

theorem nodup (h : Tracks jobs p) : (p.done ++ p.pending).Nodup :=
  h.perm.symm.nodup List.nodup_range

theorem lt_started (h : Tracks jobs p) {i : Nat} (hi : i ∈ p.done ∨ i ∈ p.pending) :
    i < p.started :=
  List.mem_range.1 (h.perm.subset (List.mem_append.2 hi))

theorem not_mem_done (h : Tracks jobs p) {i : Nat} (hi : i ∈ p.pending) : i ∉ p.done :=
  fun hd => (List.nodup_append.1 h.nodup).2.2 i hd i hi rfl

theorem started_not_mem_done (h : Tracks jobs p) : p.started ∉ p.done :=
  fun hd => Nat.lt_irrefl _ (h.lt_started (.inl hd))

end Tracks

/-! ## The places after a part of a move -/

theorem done_launched (p : Pool σ τ) (index : Nat) (task : Task) (launch : Launch σ) :
    (p.launched index task launch).done = p.done := by
  cases launch <;> rfl

theorem unstarted_launched (p : Pool σ τ) (index : Nat) (task : Task) (launch : Launch σ) :
    (p.launched index task launch).unstarted = p.unstarted := by
  cases launch <;> rfl

theorem total_launched (p : Pool σ τ) (index : Nat) (task : Task) (launch : Launch σ) :
    (p.launched index task launch).total = p.total := by
  cases launch <;> rfl

theorem done_record (p : Pool σ τ) (index : Nat) (result : TransferResult) :
    (p.record index result).done = p.done ++ [index] := by
  simp [done, record, emit]

section

variable {α : Type} (f : Resume → Option α) (g : Flight σ → α)

/-- What can be read off the tasks that are called and not finished, at their places. -/
def pendingBy (p : Pool σ τ) : List α :=
  p.ready.filterMap f ++ p.timers.map fun timer => g timer.2

theorem pendingBy_of_ready {p : Pool σ τ} {r : Resume} {rest : List Resume}
    (hready : p.ready = r :: rest) :
    p.pendingBy f g = (f r).toList ++ { p with ready := rest }.pendingBy f g := by
  simp only [pendingBy, hready, List.filterMap_cons]
  cases f r <;> rfl

theorem pendingBy_of_timers {p : Pool σ τ} {due : Time} {flight : Flight σ}
    {rest : Timers (Flight σ)} (hready : p.ready = [])
    (htimers : p.timers = (due, flight) :: rest) :
    p.pendingBy f g = g flight :: { p with timers := rest }.pendingBy f g := by
  simp only [pendingBy, hready, htimers, List.filterMap_nil, List.map_cons, List.nil_append]

theorem perm_pendingBy_enqueue (p : Pool σ τ) (r : Resume) :
    ((p.enqueue r).pendingBy f g).Perm ((f r).toList ++ p.pendingBy f g) := by
  have hready : (p.enqueue r).pendingBy f g = p.ready.filterMap f ++ (f r).toList ++
      p.timers.map fun timer => g timer.2 := by
    simp only [pendingBy, enqueue, List.filterMap_append, List.filterMap_cons, List.filterMap_nil]
    cases f r <;> rfl
  rw [hready, pendingBy, ← List.append_assoc]
  exact List.perm_append_comm.append_right _

theorem perm_pendingBy_wait (p : Pool σ τ) (delay : Time) (flight : Flight σ) :
    ((p.wait delay flight).pendingBy f g).Perm (g flight :: p.pendingBy f g) := by
  have hset : ((p.timers.set (p.clock.after p.now delay) flight).map fun timer =>
      g timer.2).Perm (g flight :: p.timers.map fun timer => g timer.2) :=
    (Timers.set_perm _ _ _).map _
  exact (hset.append_left _).trans List.perm_middle

end

theorem pending_of_ready {p : Pool σ τ} {r : Resume} {rest : List Resume}
    (hready : p.ready = r :: rest) :
    p.pending = r.index?.toList ++ { p with ready := rest }.pending :=
  pendingBy_of_ready Resume.index? Flight.index hready

theorem perm_pending_enqueue (p : Pool σ τ) (r : Resume) :
    (p.enqueue r).pending.Perm (r.index?.toList ++ p.pending) :=
  perm_pendingBy_enqueue Resume.index? Flight.index p r

/-- A called task is pending, whatever its operation does. -/
theorem perm_pending_launched (p : Pool σ τ) (index : Nat) (task : Task) (launch : Launch σ) :
    (p.launched index task launch).pending.Perm (index :: p.pending) := by
  cases launch with
  | throws error => exact perm_pending_enqueue _ _
  | refused error => exact perm_pending_enqueue _ _
  | waits delay finish => exact perm_pendingBy_wait Resume.index? Flight.index _ _ _

/-! ## Bookkeeping in moves -/

theorem started_call {p : Pool σ τ} {index : Nat} {job : Job σ} {rest : List (Nat × Job σ)}
    (h : Tracks jobs p) (hu : p.unstarted = (index, job) :: rest) :
    (p.call index job rest).started = p.started + 1 := by
  rw [started, call, total_launched, unstarted_launched]
  exact (h.next_job hu).2.2.2

theorem invariant_tracks (jobs : List (Job σ)) : Invariant (τ := τ) (Tracks jobs) where
  wake := fun h hready => ⟨h.total, h.unstarted, by
    have hperm := h.perm
    rwa [pending_of_ready hready] at hperm⟩
  logFailure := fun {p index task began error rest} h hready => ⟨h.total, h.unstarted, by
    have hperm := h.perm
    rw [pending_of_ready hready] at hperm
    exact ((perm_pending_enqueue _ _).append_left _).trans hperm⟩
  conclude := fun {p index result rest} h hready => ⟨h.total, h.unstarted, by
    have hperm := h.perm
    rw [pending_of_ready hready] at hperm
    rw [done_record, List.append_assoc]
    exact hperm⟩
  land := fun {p due flight rest} h hready htimers => ⟨h.total, h.unstarted, by
    have hperm := h.perm
    have hpending : p.pending = flight.index :: { p with timers := rest }.pending :=
      pendingBy_of_timers Resume.index? Flight.index hready htimers
    rw [hpending] at hperm
    rw [land, done_record, List.append_assoc]
    exact hperm⟩
  call := fun {p index job rest} h hu => by
    have hstarted := started_call h hu
    obtain ⟨rfl, hjob, hrest, -⟩ := h.next_job hu
    refine ⟨?_, ?_, ?_⟩
    · rw [call, total_launched]
      exact h.total
    · rw [hstarted, call, unstarted_launched]
      exact hrest
    -- The called index is the next one, and it becomes pending.
    · rw [hstarted, call, done_launched, List.range_succ]
      have hpending := perm_pending_launched (p.called job rest) p.started job.task
        (job.call p.world).1
      calc p.done ++ ((p.called job rest).launched p.started job.task (job.call p.world).1).pending
          |>.Perm (p.done ++ p.started :: p.pending) := hpending.append_left _
        _ |>.Perm (p.started :: (p.done ++ p.pending)) := List.perm_middle
        _ |>.Perm (p.started :: List.range p.started) := h.perm.cons _
        _ |>.Perm (List.range p.started ++ [p.started]) :=
            (List.perm_append_singleton _ _).symm

/-! ## Results -/

theorem started_run {jobs : List (Job σ)} {p : Pool σ τ} (h : Tracks jobs p) (hb : p.Busy) :
    p.run.started = jobs.length := by
  rw [started, (run_drained hb).1, ((invariant_tracks jobs).run h).total]
  exact Nat.sub_zero _

theorem perm_done_run {jobs : List (Job σ)} {p : Pool σ τ} (h : Tracks jobs p) (hb : p.Busy) :
    p.run.done.Perm (List.range jobs.length) := by
  obtain ⟨-, hready, htimers⟩ := run_drained hb
  have hperm := ((invariant_tracks jobs).run h).perm
  have hpending : p.run.pending = [] := by simp [pending, hready, htimers]
  rwa [hpending, started_run h hb, List.append_nil] at hperm

theorem length_finished_run {jobs : List (Job σ)} {p : Pool σ τ} (h : Tracks jobs p)
    (hb : p.Busy) : p.run.finished.length = jobs.length := by
  simpa [done] using (perm_done_run h hb).length_eq

/-- A run of a busy pool leaves one result for each job, in the order of the jobs, and these are the
results with which the tasks were finished. -/
theorem results_run {jobs : List (Job σ)} {p : Pool σ τ} (h : Tracks jobs p) (hb : p.Busy) :
    p.run.results.length = jobs.length ∧
      ∀ i r, p.run.results[i]? = some r ↔ (i, r) ∈ p.run.finished := by
  have htracks := (invariant_tracks jobs).run h
  rw [results, htracks.total]
  exact OrderedMap.getElem?_filterMap_lookup (perm_done_run h hb)

end Pool

end BulkTransfer
