import BulkTransfer.Proofs.Clock.Steady
import BulkTransfer.Proofs.Pool.Hearing

/-!
# Times of events

By a steady clock a timer that is set for a delay that is not negative fires no earlier than the
time at which it was set.  So the time of a pool never goes back, and the events of a run are in the
order of their times (`chronological_run`).
-/

namespace BulkTransfer

/-- When something was shown; a console line does not say. -/
def Event.time? : Event → Option Time
  | .console _ _ => none
  | .started _ time => some time
  | .progress _ _ _ _ time => some time

/-- The times of events, in the order of the events. -/
def times (events : List Event) : List Time := events.filterMap Event.time?

theorem times_append (events more : List Event) :
    times (events ++ more) = times events ++ times more :=
  List.filterMap_append

namespace Pool

variable {σ : Type} {clock : Clock} {jobs : List (Job σ)} {p : Pool σ Unit}

theorem times_failureLine (task : Task) (error : Thrown) : times [failureLine task error] = [] :=
  rfl

theorem times_failureLines (task : Task) (outcome : Except Thrown Unit) :
    times (failureLines task outcome) = [] := by
  cases outcome <;> rfl

/-- The operations of jobs wait for delays that are not negative. -/
def Patient (jobs : List (Job σ)) : Prop :=
  ∀ job ∈ jobs, ∀ {w delay finish}, (job.call w).1 = .waits delay finish → 0 ≤ delay

/-- The events so far are in the order of their times, and timers fire in the order of theirs, none
of them before now. -/
structure Chronological (clock : Clock) (jobs : List (Job σ)) (p : Pool σ Unit) : Prop where
  quiet : p.observer = .quiet
  clock_eq : p.clock = clock
  unstarted : ∀ x ∈ p.unstarted, x.2 ∈ jobs
  now : clock.Shows p.now
  sorted : p.timers.Pairwise fun x y => x.1 ≤ y.1
  timers : ∀ timer ∈ p.timers, p.now ≤ timer.1 ∧ clock.Shows timer.1
  ordered : (times p.events).Pairwise (· ≤ ·)
  past : ∀ time ∈ times p.events, time ≤ p.now

namespace Chronological

theorem ahead (h : Chronological clock jobs p) : Timers.Ahead clock p.now p.timers :=
  ⟨h.now, h.sorted, h.timers⟩

/-- What is shown now is shown after all that has been shown. -/
theorem emit (h : Chronological clock jobs p) (events : List Event)
    (hnow : ∀ time ∈ times events, time = p.now) :
    Chronological clock jobs (p.emit events) := by
  have hlist : (p.emit events).events = p.events ++ events := rfl
  refine { h with ordered := ?_, past := fun time ht => ?_ }
  · rw [hlist, times_append, List.pairwise_append]
    refine ⟨h.ordered, ?_, fun a ha b hb => (h.past a ha).trans (hnow b hb).ge⟩
    exact List.pairwise_of_forall_mem_list fun a ha b hb => ((hnow a ha).trans (hnow b hb).symm).le
  · rw [hlist, times_append, List.mem_append] at ht
    exact ht.elim (h.past time) fun hmem => (hnow time hmem).le

/-- A console line does not say when it was shown. -/
theorem emit_lines (h : Chronological clock jobs p) {events : List Event}
    (hlines : times events = []) : Chronological clock jobs (p.emit events) :=
  h.emit events fun _ ht => absurd (hlines ▸ ht) List.not_mem_nil

theorem record (h : Chronological clock jobs p) (index : Nat) (result : TransferResult) :
    Chronological clock jobs (p.record index result) := by
  have hfinished : Chronological clock jobs
      { p with finished := p.finished ++ [(index, result)] } := { h with }
  rw [record_of_quiet h.quiet]
  exact hfinished.emit _ fun time ht => List.mem_singleton.1 ht

/-- The time goes on to the next timer, which fires. -/
theorem land (h : Chronological clock jobs p) {due : Time} {flight : Flight σ}
    {rest : Timers (Flight σ)} (htimers : p.timers = (due, flight) :: rest) :
    Chronological clock jobs ({ p with timers := rest }.land due flight) := by
  have hahead := h.ahead
  rw [htimers] at hahead
  obtain ⟨hle, hlater⟩ := hahead.fire
  have hnext : Chronological clock jobs
      { p with timers := rest, now := due, world := (flight.finish p.world).2 } :=
    { h with
      now := hlater.shows
      sorted := hlater.sorted
      timers := hlater.later
      past := fun time ht => (h.past time ht).trans hle }
  exact (hnext.emit_lines (times_failureLines _ _)).record _ _

theorem call (h : Chronological clock jobs p) (hclock : clock.Steady) (hpatient : Patient jobs)
    {index : Nat} {job : Job σ} {rest : List (Nat × Job σ)}
    (hu : p.unstarted = (index, job) :: rest) :
    Chronological clock jobs (p.call index job rest) := by
  have hunstarted := h.unstarted
  rw [hu] at hunstarted
  obtain ⟨hjob, hothers⟩ := List.forall_mem_cons.1 hunstarted
  have hcalled : Chronological clock jobs (p.called job rest) := by
    have htaken : Chronological clock jobs
        { p with unstarted := rest, world := (job.call p.world).2 } :=
      { h with unstarted := hothers }
    exact htaken.emit _ fun time ht => List.mem_singleton.1 ht
  rw [Pool.call]
  cases hl : (job.call p.world).1 with
  | throws error =>
    have hline := hcalled.emit_lines (times_failureLine job.task error)
    exact { hline with }
  | refused error => exact { hcalled with }
  | waits delay finish =>
    have hahead : Timers.Ahead clock p.now
        ((p.called job rest).launched index job.task (.waits delay finish)).timers := by
      show Timers.Ahead clock p.now (Timers.set (p.clock.after p.now delay) _ p.timers)
      rw [h.clock_eq]
      exact h.ahead.set hclock (hpatient job hjob hl) _
    exact { hcalled with sorted := hahead.sorted, timers := hahead.later }

end Chronological

theorem invariant_chronological (hclock : clock.Steady) (hpatient : Patient jobs) :
    Invariant (Chronological clock jobs) where
  wake := fun h _ => { h with }
  logFailure := fun {p index task began error rest} h _ => by
    have hline := h.emit_lines (times_failureLine task error)
    exact { hline with }
  conclude := fun {p index result rest} h _ => by
    have hwoken : Chronological clock jobs { p with ready := rest } := { h with }
    exact hwoken.record index result
  land := fun h _ htimers => h.land htimers
  call := fun h hu => h.call hclock hpatient hu

/-- The events of a run are in the order of their times, and none is later than its end. -/
theorem chronological_run (hclock : clock.Steady) (hpatient : Patient jobs) (world : σ)
    (workers : Nat) : Chronological clock jobs (start clock world .quiet jobs workers).run := by
  refine (invariant_chronological hclock hpatient).run ?_
  exact
    { quiet := rfl
      clock_eq := rfl
      unstarted := fun x hx => by
        obtain ⟨⟨job, i⟩, hy, rfl⟩ := List.mem_map.1 hx
        obtain ⟨-, hjob⟩ := List.mem_zipIdx' hy
        change job ∈ jobs
        rw [hjob]
        exact List.getElem_mem _
      now := hclock.shows_zero
      sorted := .nil
      timers := fun _ ht => absurd ht List.not_mem_nil
      ordered := .nil
      past := fun _ ht => absurd ht List.not_mem_nil }

end Pool

end BulkTransfer
