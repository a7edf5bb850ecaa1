import Mathlib.Algebra.Order.BigOperators.Group.List
import Mathlib.Tactic.Linarith
import Mathlib.Tactic.Ring
import BulkTransfer.Proofs.Pool.Timed

/-!
# The shares of the workers

Each worker of a pool is free at some time: since it stopped, now, or when its timer fires.  By a
clock that shows sums of delays these times add up to the delays of the tasks that have been called,
and no worker stops before another one is free by more than the longest delay, since up to then
there were jobs for it (`Balanced`).  So the time of a run, once for each worker, is no less than
the sum of the delays, and exceeds it by at most the longest delay for each worker but one
(`shares_run`).
-/

namespace BulkTransfer

namespace Pool

variable {σ τ : Type} {clock : Clock} {tasks : List (Task × Behaviour)} {p q next : Pool σ τ}
  {index : Nat} {job : Job σ} {rest : List (Nat × Job σ)} {longest : Time} {workers : Nat}
  {stops : List Time}

/-- The workers of a pool with the times since when some of them have stopped.  Together with the
times at which the others are free again these add up to the delays of all called tasks, and all
others are free again at most the longest delay after any worker has stopped. -/
structure Balanced (tasks : List (Task × Behaviour)) (longest : Time) (workers : Nat)
    (stops : List Time) (p : Pool σ τ) : Prop where
  length : stops.length + p.crew = workers
  sum : stops.sum + p.ready.length * p.now + (p.timers.map Prod.fst).sum =
    (calledDelays tasks p).sum
  due_le : ∀ timer ∈ p.timers, timer.1 ≤ p.now + longest
  stopped : ∀ stop ∈ stops, stop ≤ p.now ∧ p.now ≤ stop + longest ∧
    ∀ timer ∈ p.timers, timer.1 ≤ stop + longest

namespace Balanced

/-- A worker that is free now takes the next job. -/
theorem call (h : Balanced tasks longest workers [p.now] p)
    (htracks : Tracks (Behaviour.jobs tasks) p)
    (hdelays : ∀ d ∈ Behaviour.delays tasks, d ≤ longest)
    (hafter : ∀ d, (Behaviour.delays tasks)[p.started]? = some d →
      p.clock.after p.now d = p.now + d) (hu : p.unstarted = (index, job) :: rest) :
    Balanced tasks longest workers [] (p.call index job rest) := by
  obtain ⟨hlength, hsum, hdue, -⟩ := h
  obtain ⟨delay, hdelay, hcalled⟩ := call_behaving htracks hu
  have hnow := now_call p index job rest
  have hle := hdelays delay (List.mem_of_getElem? hdelay)
  have hcrew := crew_call p index job rest
  rw [List.length_singleton] at hlength
  rw [List.sum_singleton] at hsum
  refine ⟨by rw [List.length_nil]; omega, ?_, ?_, fun _ hs => absurd hs List.not_mem_nil⟩
  · rw [calledDelays_call htracks hu hdelay, List.sum_append, List.sum_singleton, ← hsum, hnow]
    rcases hcalled with ⟨flight, hready, htimers⟩ | ⟨r, hzero, hready, htimers⟩
    · have hset : ((p.call index job rest).timers.map Prod.fst).sum =
          p.now + delay + (p.timers.map Prod.fst).sum := by
        rw [htimers, ((Timers.set_perm _ _ _).map _).sum_eq, List.map_cons, List.sum_cons,
          hafter delay hdelay]
      rw [hset, hready, List.sum_nil]
      ring
    · rw [htimers, hready, hzero, List.sum_nil, List.length_append, List.length_singleton]
      push_cast
      ring
  · intro timer ht
    rw [hnow]
    rcases hcalled with ⟨flight, -, htimers⟩ | ⟨r, -, -, htimers⟩
    · rw [htimers] at ht
      rcases Timers.mem_set.1 ht with rfl | ht
      · rw [hafter delay hdelay]
        linarith
      · exact hdue timer ht
    · rw [htimers] at ht
      exact hdue timer ht

/-- A worker that is free now takes the next job, or stops. -/
theorem takeNext (h : Balanced tasks longest workers (q.now :: stops) q)
    (htracks : Tracks (Behaviour.jobs tasks) q)
    (hdelays : ∀ d ∈ Behaviour.delays tasks, d ≤ longest)
    (hafter : ∀ d, (Behaviour.delays tasks)[q.started]? = some d →
      q.clock.after q.now d = q.now + d) (hstops : q.unstarted ≠ [] → stops = []) :
    ∃ stops', Balanced tasks longest workers stops' q.takeNext ∧
      (q.takeNext.now ∈ stops' ∨ q.takeNext.crew ≠ 0) := by
  rcases hu : q.unstarted with _ | ⟨⟨index, job⟩, rest⟩
  · rw [takeNext_of_nil hu]
    exact ⟨_, h, .inl List.mem_cons_self⟩
  · obtain rfl := hstops (by simp [hu])
    rw [takeNext_of_cons hu, crew_call]
    exact ⟨[], h.call htracks hdelays hafter hu, .inr (Nat.succ_ne_zero _)⟩

/-- A ready worker has been free until now. -/
theorem leave (h : Balanced tasks longest workers stops p) (hlongest : 0 ≤ longest) {r : Resume}
    {rest : List Resume} (hready : p.ready = r :: rest) :
    Balanced tasks longest workers (p.now :: stops) { p with ready := rest } := by
  obtain ⟨hlength, hsum, hdue, hstopped⟩ := h
  rw [crew, hready, List.length_cons] at hlength
  rw [hready, List.length_cons] at hsum
  refine ⟨?_, ?_, hdue, List.forall_mem_cons.2 ⟨⟨le_rfl, by linarith, hdue⟩, hstopped⟩⟩
  · rw [crew, List.length_cons]
    show stops.length + 1 + (rest.length + p.timers.length) = workers
    omega
  · rw [List.sum_cons]
    refine Eq.trans ?_ hsum
    push_cast
    ring

/-- When a timer fires its worker is free. -/
theorem land (h : Balanced tasks longest workers stops p) (htimed : Timed clock tasks p)
    (hlongest : 0 ≤ longest) {due : Time} {flight : Flight σ} {rest : Timers (Flight σ)}
    (hready : p.ready = []) (htimers : p.timers = (due, flight) :: rest) :
    Balanced tasks longest workers (due :: stops) ({ p with timers := rest }.land due flight) := by
  obtain ⟨hlength, hsum, hdue, hstopped⟩ := h
  have hnow : p.now ≤ due := (htimed.ahead.later (due, flight) (by simp [htimers])).1
  have hlater : ∀ timer ∈ rest, timer.1 ≤ due + longest := by
    intro timer ht
    have := hdue timer (htimers ▸ List.mem_cons_of_mem _ ht)
    linarith
  rw [crew, hready, htimers, List.length_cons] at hlength
  rw [hready, htimers, List.map_cons, List.sum_cons] at hsum
  refine ⟨?_, ?_, hlater, List.forall_mem_cons.2 ⟨⟨le_rfl, ?_, hlater⟩, fun stop hs => ?_⟩⟩
  · show stops.length + 1 + (p.ready.length + rest.length) = workers
    rw [hready]
    omega
  · show (due :: stops).sum + p.ready.length * due + (rest.map Prod.fst).sum =
      (calledDelays tasks p).sum
    rw [← hsum, hready, List.sum_cons, List.length_nil]
    push_cast
    ring
  · show due ≤ due + longest
    linarith
  · obtain ⟨hle, -, hothers⟩ := hstopped stop hs
    rw [htimers, List.forall_mem_cons] at hothers
    exact ⟨hle.trans hnow, hothers⟩

/-- A worker that logs a failure stays ready. -/
theorem logFailure (h : Balanced tasks longest workers stops p) {task : Task} {began : Time}
    {error : Thrown} {rest : List Resume}
    (hready : p.ready = .logFailure index task began error :: rest) :
    let logged := { p with ready := rest }.resume (.logFailure index task began error)
    Balanced tasks longest workers stops logged ∧ (logged.now ∈ stops ∨ logged.crew ≠ 0) := by
  intro logged
  have hlength : logged.ready.length = p.ready.length := by
    simp [logged, resume, enqueue, emit, hready]
  have hcrew : logged.crew = p.crew := by
    unfold crew
    rw [hlength]
    rfl
  refine ⟨⟨hcrew ▸ h.length, ?_, h.due_le, h.stopped⟩, .inr ?_⟩
  · rw [hlength]
    exact h.sum
  · simp [crew, hlength, hready]

end Balanced

/-- What is known of a pool on the way to its end. -/
structure Sharing (clock : Clock) (tasks : List (Task × Behaviour)) (longest : Time)
    (workers : Nat) (p : Pool σ τ) : Prop where
  timed : Timed clock tasks p
  follows : Follows clock tasks p
  crewed : Crewed workers p
  shares : ∃ stops, Balanced tasks longest workers stops p ∧ (p.now ∈ stops ∨ p.crew ≠ 0)

/-- By a clock that shows sums of delays the next timer is set for the next delay from now. -/
theorem Follows.after_eq (h : Follows clock tasks p)
    (hsums : clock.ShowsSums (Behaviour.delays tasks)) {delay : Time}
    (hdelay : (Behaviour.delays tasks)[p.started]? = some delay) :
    p.clock.after p.now delay = p.now + delay := by
  obtain ⟨chain, hdone, hinstant⟩ := h.now
  have hnew : p.started ∉ chain := fun hi => h.tracks.started_not_mem_done (hdone hi)
  rw [h.clock_eq] at hinstant ⊢
  rw [(hinstant.later hnew hdelay).eq_sum hsums, hinstant.eq_sum hsums, List.map_cons,
    List.sum_cons, hdelay, Option.getD_some, add_comm]

namespace Sharing

theorem move (h : Sharing clock tasks longest workers p) (hclock : clock.Steady)
    (hsums : clock.ShowsSums (Behaviour.delays tasks))
    (hdelays : ∀ d ∈ Behaviour.delays tasks, clock.Shows d ∧ d ≤ longest) (hlongest : 0 ≤ longest)
    (hs : p.step? = some next) : Sharing clock tasks longest workers next := by
  have hm := move_of_step? hs
  have htimed := invariant_timed (σ := σ) (τ := τ) hclock fun d hd => (hdelays d hd).1
  have hfollows : Invariant (σ := σ) (τ := τ) (Follows clock tasks) := invariant_follows
  refine ⟨htimed.step? h.timed hs, hfollows.step? h.follows hs, h.crewed.move hm, ?_⟩
  obtain ⟨stops, hshares, -⟩ := h.shares
  -- As long as jobs are left all workers are at their places.
  have hstops : p.unstarted ≠ [] → stops = [] := by
    intro hne
    have hlength := hshares.length
    have hcrew := h.crewed.crew_eq hne
    exact List.length_eq_zero_iff.1 (by omega)
  have hbound : ∀ d ∈ Behaviour.delays tasks, d ≤ longest := fun d hd => (hdelays d hd).2
  cases hm with
  | wake hready =>
    have hq := hfollows.wake h.follows hready
    exact (hshares.leave hlongest hready).takeNext hq.tracks hbound
      (fun d hd => hq.after_eq hsums hd) hstops
  | logFailure hready => exact ⟨stops, hshares.logFailure hready⟩
  | conclude hready =>
    have hq := hfollows.conclude h.follows hready
    have hleft := hshares.leave hlongest hready
    exact Balanced.takeNext { hleft with } hq.tracks hbound
      (fun d hd => hq.after_eq hsums hd) hstops
  | land hready htimers =>
    have hq := hfollows.land h.follows hready htimers
    exact (hshares.land h.timed hlongest hready htimers).takeNext hq.tracks hbound
      (fun d hd => hq.after_eq hsums hd) hstops

end Sharing

/-! ## Runs -/

theorem sharing_start (hclock : clock.Steady) (world : σ) (observer : Observer τ)
    (hworkers : 0 < workers) :
    Sharing clock tasks longest workers
      (start clock world observer (Behaviour.jobs tasks) workers) where
  timed := timed_start world observer tasks hclock workers
  follows := follows_start world observer workers
  crewed := crewed_start clock world observer _ workers
  shares := by
    refine ⟨[], ⟨?_, ?_, fun _ ht => absurd ht List.not_mem_nil,
      fun _ hs => absurd hs List.not_mem_nil⟩, .inr ?_⟩
    · simp [crew, start]
    · simp [calledDelays, started, start]
    · simp [crew, start, hworkers.ne']

/-- Times none of which is before the last one by more than a span. -/
theorem le_sum_of_mem {times : List Time} {last span : Time} (hmem : last ∈ times)
    (h : ∀ time ∈ times, last ≤ time + span) :
    times.length * last ≤ times.sum + (times.length - 1) * span := by
  have hperm := List.perm_cons_erase hmem
  have hothers : (times.erase last).length • (last - span) ≤ (times.erase last).sum := by
    apply List.card_nsmul_le_sum
    intro time ht
    have := h time (List.mem_of_mem_erase ht)
    linarith
  rw [hperm.sum_eq, hperm.length_eq, List.sum_cons, List.length_cons]
  rw [nsmul_eq_mul] at hothers
  push_cast
  linarith

/-- A run with some workers takes so long that they have the time for all delays, and no worker but
the last one has been idle for longer than the longest delay. -/
theorem shares_run (hclock : clock.Steady) (hsums : clock.ShowsSums (Behaviour.delays tasks))
    (hlongest : 0 ≤ longest)
    (hdelays : ∀ d ∈ Behaviour.delays tasks, clock.Shows d ∧ d ≤ longest) (world : σ)
    (observer : Observer τ) (hworkers : 0 < workers) :
    let final := (start clock world observer (Behaviour.jobs tasks) workers).run
    (Behaviour.delays tasks).sum ≤ workers * final.now ∧
      workers * final.now ≤ (Behaviour.delays tasks).sum + (workers - 1) * longest := by
  intro final
  have hend : Sharing clock tasks longest workers final :=
    run_of_step? (fun h hs => h.move hclock hsums hdelays hlongest hs)
      (sharing_start hclock world observer hworkers)
  obtain ⟨-, hready, htimers⟩ :=
    run_drained (busy_start clock world observer (Behaviour.jobs tasks) hworkers)
  have hcrew : final.crew = 0 := by
    unfold crew
    rw [hready, htimers]
    rfl
  -- All workers have stopped, and one of them only now.
  obtain ⟨stops, ⟨hlength, hsum, -, hstopped⟩, hlast⟩ := hend.shares
  rw [hcrew, Nat.add_zero] at hlength
  rw [hready, htimers, calledDelays_run world observer tasks hworkers, List.length_nil,
    Nat.cast_zero, zero_mul, add_zero, List.map_nil, List.sum_nil, add_zero] at hsum
  rw [← hsum, ← hlength]
  constructor
  · have hle := List.sum_le_card_nsmul stops final.now fun stop hs => (hstopped stop hs).1
    rwa [nsmul_eq_mul] at hle
  · exact le_sum_of_mem (hlast.resolve_right fun hne => hne hcrew) fun stop hs =>
      (hstopped stop hs).2.1

end Pool

end BulkTransfer
