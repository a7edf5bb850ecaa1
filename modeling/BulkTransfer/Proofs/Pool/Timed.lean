import BulkTransfer.Proofs.Clock.Steady
import BulkTransfer.Proofs.Dispatch.Behaviours
import BulkTransfer.Proofs.Pool.Crew

/-!
# How long a pool takes at least

By a steady clock the time of a pool goes on to timers that are set for later, so a run takes no
less than the delay of any operation (`le_now_run`).  With as many workers as tasks all operations
begin at once, and it takes no more than the longest delay (`now_run_le`).
-/

namespace BulkTransfer

namespace Pool

variable {σ τ : Type} {clock : Clock} {tasks : List (Task × Behaviour)} {p q next : Pool σ τ}
  {index : Nat} {job : Job σ} {rest : List (Nat × Job σ)}

/-! ## Calls of operations that do not look at the world -/

theorem now_call (p : Pool σ τ) (index : Nat) (job : Job σ) (rest : List (Nat × Job σ)) :
    (p.call index job rest).now = p.now := by
  unfold call
  cases (job.call p.world).1 <;> rfl

theorem clock_call (p : Pool σ τ) (index : Nat) (job : Job σ) (rest : List (Nat × Job σ)) :
    (p.call index job rest).clock = p.clock := by
  unfold call
  cases (job.call p.world).1 <;> rfl

/-- A call makes a worker wait for the delay of the task, or leaves it ready when that is none. -/
theorem call_behaving (h : Tracks (Behaviour.jobs tasks) p)
    (hu : p.unstarted = (index, job) :: rest) :
    ∃ delay, (Behaviour.delays tasks)[p.started]? = some delay ∧
      ((∃ flight, (p.call index job rest).ready = p.ready ∧
          (p.call index job rest).timers =
            Timers.set (p.clock.after p.now delay) flight p.timers) ∨
        ∃ r, delay = 0 ∧ (p.call index job rest).ready = p.ready ++ [r] ∧
          (p.call index job rest).timers = p.timers) := by
  obtain ⟨-, hjob, -, -⟩ := h.next_job hu
  obtain ⟨task, b, htask, rfl⟩ := getElem?_jobs hjob
  refine ⟨b.delay, by simp [Behaviour.delays, htask], ?_⟩
  cases b with
  | throws error => exact .inr ⟨_, rfl, rfl, rfl⟩
  | settles delay outcome => exact .inl ⟨_, rfl, rfl⟩

/-- The delays of the tasks that have been called. -/
def calledDelays (tasks : List (Task × Behaviour)) (p : Pool σ τ) : List Time :=
  (Behaviour.delays tasks).take p.started

theorem calledDelays_call {delay : Time} (h : Tracks (Behaviour.jobs tasks) p)
    (hu : p.unstarted = (index, job) :: rest)
    (hdelay : (Behaviour.delays tasks)[p.started]? = some delay) :
    calledDelays tasks (p.call index job rest) = calledDelays tasks p ++ [delay] := by
  unfold calledDelays
  rw [started_call h hu, List.take_add_one, hdelay]
  rfl

/-! ## No delay is longer than the run -/

/-- A span that is over now, or will be when some timer fires. -/
def Covered (now : Time) (timers : Timers (Flight σ)) (span : Time) : Prop :=
  span ≤ now ∨ ∃ timer ∈ timers, span ≤ timer.1

namespace Covered

variable {now due span : Time} {flight : Flight σ} {timers others : Timers (Flight σ)}

theorem set (h : Covered now timers span) (due : Time) (flight : Flight σ) :
    Covered now (Timers.set due flight timers) span := by
  rcases h with hover | ⟨timer, ht, hle⟩
  · exact .inl hover
  · exact .inr ⟨timer, Timers.mem_set.2 (.inr ht), hle⟩

theorem fire (h : Covered now ((due, flight) :: others) span) (hdue : now ≤ due) :
    Covered due others span := by
  rcases h with hover | ⟨timer, ht, hle⟩
  · exact .inl (hover.trans hdue)
  · rcases List.mem_cons.1 ht with rfl | ht
    · exact .inl hle
    · exact .inr ⟨timer, ht, hle⟩

end Covered

/-- The time goes on to timers that are set for later, and each delay of a called task is over or
waited for. -/
structure Timed (clock : Clock) (tasks : List (Task × Behaviour)) (p : Pool σ τ) : Prop where
  tracks : Tracks (Behaviour.jobs tasks) p
  clock_eq : p.clock = clock
  ahead : Timers.Ahead clock p.now p.timers
  covered : ∀ d ∈ calledDelays tasks p, Covered p.now p.timers d

namespace Timed

/-- The time goes on to the next timer. -/
theorem land (h : Timed clock tasks p) {due : Time} {flight : Flight σ} {rest : Timers (Flight σ)}
    (hready : p.ready = []) (htimers : p.timers = (due, flight) :: rest) :
    Timed clock tasks ({ p with timers := rest }.land due flight) := by
  have hahead := h.ahead
  have hcovered := h.covered
  rw [htimers] at hahead hcovered
  obtain ⟨hdue, hlater⟩ := hahead.fire
  exact
    { tracks := (invariant_tracks _).land h.tracks hready htimers
      clock_eq := h.clock_eq
      ahead := hlater
      covered := fun d hd => (hcovered d hd).fire hdue }

theorem call (h : Timed clock tasks p) (hclock : clock.Steady)
    (hdelays : ∀ d ∈ Behaviour.delays tasks, clock.Shows d)
    (hu : p.unstarted = (index, job) :: rest) : Timed clock tasks (p.call index job rest) := by
  obtain ⟨delay, hdelay, hcalled⟩ := call_behaving h.tracks hu
  have hshows := hdelays delay (List.mem_of_getElem? hdelay)
  refine ⟨(invariant_tracks _).call h.tracks hu, (clock_call p index job rest).trans h.clock_eq,
    ?_, ?_⟩
  · rw [now_call]
    rcases hcalled with ⟨flight, -, htimers⟩ | ⟨r, -, -, htimers⟩
    · rw [htimers, h.clock_eq]
      exact h.ahead.set hclock hshows.nonneg flight
    · rw [htimers]
      exact h.ahead
  · rw [now_call, calledDelays_call h.tracks hu hdelay]
    rcases hcalled with ⟨flight, -, htimers⟩ | ⟨r, hzero, -, htimers⟩
    · rw [htimers, h.clock_eq, List.forall_mem_append, List.forall_mem_singleton]
      have hdue := hclock.delay_le_after h.ahead.shows hshows
      exact ⟨fun d hd => (h.covered d hd).set _ flight,
        .inr ⟨_, Timers.mem_set.2 (.inl rfl), hdue⟩⟩
    · rw [htimers, hzero, List.forall_mem_append, List.forall_mem_singleton]
      exact ⟨h.covered, .inl h.ahead.shows.nonneg⟩

end Timed

theorem invariant_timed (hclock : clock.Steady)
    (hdelays : ∀ d ∈ Behaviour.delays tasks, clock.Shows d) :
    Invariant (σ := σ) (τ := τ) (Timed clock tasks) where
  wake := fun h hready => { h with tracks := (invariant_tracks _).wake h.tracks hready }
  logFailure := fun h hready => { h with tracks := (invariant_tracks _).logFailure h.tracks hready }
  conclude := fun h hready => { h with tracks := (invariant_tracks _).conclude h.tracks hready }
  land := fun h hready htimers => h.land hready htimers
  call := fun h hu => h.call hclock hdelays hu

/-! ## As many workers as tasks -/

/-- All operations begin at once. -/
structure AtOnce (longest : Time) (p : Pool σ τ) : Prop where
  now_eq : p.unstarted ≠ [] → p.now = 0
  now_le : p.now ≤ longest
  timers_le : ∀ timer ∈ p.timers, timer.1 ≤ longest

/-- When each task has a worker of its own, no timer fires before all of them are called. -/
theorem Crewed.unstarted_eq_nil (h : Crewed tasks.length p)
    (htracks : Tracks (Behaviour.jobs tasks) p) (hready : p.ready = []) : p.unstarted = [] := by
  by_contra hne
  obtain ⟨⟨index, job⟩, rest, hu⟩ := List.exists_cons_of_ne_nil hne
  have hcrew := h.crew_eq hne
  have hplaces := htracks.perm.length_eq
  have hlt := (List.getElem?_eq_some_iff.1 (htracks.next_job hu).2.1).1
  simp only [done, pending, hready, List.filterMap_nil, List.nil_append, List.length_append,
    List.length_map, List.length_range] at hplaces
  simp only [Behaviour.jobs, List.length_map] at hlt
  simp only [crew, hready, List.length_nil] at hcrew
  omega

theorem AtOnce.takeNext {longest : Time} (h : AtOnce longest q) (htimed : Timed clock tasks q)
    (hdelays : ∀ d ∈ Behaviour.delays tasks, clock.Shows d ∧ d ≤ longest) :
    AtOnce longest q.takeNext := by
  rcases hu : q.unstarted with _ | ⟨⟨index, job⟩, rest⟩
  · rwa [takeNext_of_nil hu]
  · rw [takeNext_of_cons hu]
    have hzero := h.now_eq (by simp [hu])
    have hnow := now_call q index job rest
    obtain ⟨delay, hdelay, hcalled⟩ := call_behaving htimed.tracks hu
    obtain ⟨hshows, hle⟩ := hdelays delay (List.mem_of_getElem? hdelay)
    refine ⟨fun _ => hnow.trans hzero, hnow ▸ h.now_le, fun timer ht => ?_⟩
    rcases hcalled with ⟨flight, -, htimers⟩ | ⟨r, -, -, htimers⟩
    · rw [htimers] at ht
      rcases Timers.mem_set.1 ht with rfl | ht
      · show q.clock.after q.now delay ≤ longest
        rw [htimed.clock_eq, hzero, Clock.after, zero_add, hshows.shown]
        exact hle
      · exact h.timers_le timer ht
    · rw [htimers] at ht
      exact h.timers_le timer ht

theorem AtOnce.move {longest : Time} (h : AtOnce longest p) (hclock : clock.Steady)
    (hdelays : ∀ d ∈ Behaviour.delays tasks, clock.Shows d ∧ d ≤ longest)
    (htimed : Timed clock tasks p) (hcrewed : Crewed tasks.length p) (hm : p.Move next) :
    AtOnce longest next := by
  have hkeeps := invariant_timed (σ := σ) (τ := τ) hclock fun d hd => (hdelays d hd).1
  cases hm with
  | wake hready =>
    exact AtOnce.takeNext { h with } (hkeeps.wake htimed hready) hdelays
  | logFailure hready => exact { h with }
  | conclude hready =>
    exact AtOnce.takeNext { h with } (hkeeps.conclude htimed hready) hdelays
  | @land due flight rest hready htimers =>
    have hdue := h.timers_le (due, flight) (by simp [htimers])
    have hlanded : AtOnce longest ({ p with timers := rest }.land due flight) :=
      { now_eq := fun hne => absurd (hcrewed.unstarted_eq_nil htimed.tracks hready) hne
        now_le := hdue
        timers_le := fun timer ht => h.timers_le timer (htimers ▸ List.mem_cons_of_mem _ ht) }
    exact hlanded.takeNext (hkeeps.land htimed hready htimers) hdelays

/-! ## Runs -/

section

variable (world : σ) (observer : Observer τ)

theorem timed_start (tasks : List (Task × Behaviour)) (hclock : clock.Steady) (workers : Nat) :
    Timed clock tasks (start clock world observer (Behaviour.jobs tasks) workers) where
  tracks := tracks_start clock world observer _ workers
  clock_eq := rfl
  ahead := .nil hclock.shows_zero
  covered := fun d hd => absurd hd (by simp [calledDelays, start, started])

theorem calledDelays_run (tasks : List (Task × Behaviour)) {workers : Nat}
    (hworkers : 0 < workers) :
    calledDelays tasks (start clock world observer (Behaviour.jobs tasks) workers).run =
      Behaviour.delays tasks := by
  have htracks := tracks_start clock world observer (Behaviour.jobs tasks) workers
  unfold calledDelays
  rw [started_run htracks (busy_start _ _ _ _ hworkers)]
  exact List.take_of_length_le (by simp [Behaviour.delays, Behaviour.jobs])

/-- A run takes no less than any of the delays. -/
theorem le_now_run (hclock : clock.Steady)
    (hdelays : ∀ d ∈ Behaviour.delays tasks, clock.Shows d) {workers : Nat}
    (hworkers : 0 < workers) :
    ∀ d ∈ Behaviour.delays tasks,
      d ≤ (start clock world observer (Behaviour.jobs tasks) workers).run.now := by
  intro d hd
  have hend := (invariant_timed hclock hdelays).run
    (timed_start world observer tasks hclock workers)
  obtain ⟨-, -, htimers⟩ :=
    run_drained (busy_start clock world observer (Behaviour.jobs tasks) hworkers)
  rw [← calledDelays_run world observer tasks hworkers] at hd
  rcases hend.covered d hd with hover | ⟨timer, ht, -⟩
  · exact hover
  · rw [htimers] at ht
    exact absurd ht List.not_mem_nil

/-- With a worker for each task a run takes no more than the longest delay. -/
theorem now_run_le (hclock : clock.Steady) {longest : Time} (hlongest : 0 ≤ longest)
    (hdelays : ∀ d ∈ Behaviour.delays tasks, clock.Shows d ∧ d ≤ longest) :
    (start clock world observer (Behaviour.jobs tasks) tasks.length).run.now ≤ longest := by
  have hkeeps := invariant_timed (σ := σ) (τ := τ) hclock fun d hd => (hdelays d hd).1
  have hend := run_of_step? (P := fun p : Pool σ τ => AtOnce longest p ∧ Timed clock tasks p ∧
      Crewed tasks.length p) (fun ⟨honce, htimed, hcrewed⟩ hs =>
    ⟨honce.move hclock hdelays htimed hcrewed (move_of_step? hs), hkeeps.step? htimed hs,
      hcrewed.move (move_of_step? hs)⟩)
    ⟨⟨fun _ => rfl, hlongest, fun _ ht => absurd ht List.not_mem_nil⟩,
      timed_start world observer tasks hclock tasks.length,
      crewed_start clock world observer _ _⟩
  exact hend.1.now_le

end

end Pool

end BulkTransfer
