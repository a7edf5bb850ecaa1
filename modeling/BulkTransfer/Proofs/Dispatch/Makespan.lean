import Mathlib.Data.Finset.Max
import BulkTransfer.Proofs.Dispatch.Waiting
import BulkTransfer.Proofs.Pool.Shares

/-!
# How long a batch takes

The last line of a batch gives the time at which it ends.  By a steady clock that is no less than
the longest delay, and the longest delay itself when each task has a worker.  By a clock that shows
sums of delays the workers have the time for all delays, and no more than that but for the longest
delay for each worker but one (`run_makespan`).  The machine's clock shows sums of whole
milliseconds below `2 ^ 53`, but not every greater one (`not_run_makespan`).
-/

namespace BulkTransfer

/-- A clock that shows sums of delays shows each of them. -/
theorem Clock.ShowsSums.shows {clock : Clock} {delays : List Time} (h : clock.ShowsSums delays)
    (hpos : ∀ d ∈ delays, 0 ≤ d) : ∀ d ∈ delays, clock.Shows d := by
  intro d hd
  refine ⟨hpos d hd, ?_⟩
  simpa using h [d] (List.singleton_subperm_iff.2 hd)

namespace Dispatch

variable {σ τ : Type} {clock : Clock} {tasks : List (Task × Behaviour)}

theorem exists_longest (h : tasks ≠ []) :
    ∃ longest ∈ Behaviour.delays tasks, ∀ d ∈ Behaviour.delays tasks, d ≤ longest := by
  have hdelays : Behaviour.delays tasks ≠ [] := by simpa [Behaviour.delays] using h
  obtain ⟨longest, hmem, hle⟩ := (Behaviour.delays tasks).toFinset.exists_max_image id
    (List.toFinset_nonempty_iff _ |>.2 hdelays)
  exact ⟨longest, List.mem_toFinset.1 hmem, fun d hd => hle d (List.mem_toFinset.2 hd)⟩

/-- The last line of a batch gives the time of its pool, which is no less than the longest delay,
and is that delay if there are as many workers as tasks.  By a clock that shows sums of delays the
time, once for each worker, is no less than the sum of all delays, and exceeds it by at most the
longest delay for each worker but one; so it is the sum if there is only one. -/
theorem run_makespan (hclock : clock.Steady) (htasks : tasks ≠ [])
    (hdelays : ∀ d ∈ Behaviour.delays tasks, clock.Shows d) (q : Rat) (observer : Observer τ)
    (world : σ) :
    let delays := Behaviour.delays tasks
    let count := workers q tasks.length
    let final := pool clock world observer (Behaviour.jobs tasks) count
    let ran := run clock (Behaviour.jobs tasks) (.finite q) observer world
    (ran.outcome = .ok final.results ∧
      ran.events.getLast? = some (closingLine final.now final.results)) ∧
    ∃ longest ∈ delays, (∀ d ∈ delays, d ≤ longest) ∧ longest ≤ final.now ∧
      (count = tasks.length → final.now = longest) ∧
      (clock.ShowsSums delays →
        delays.sum ≤ count * final.now ∧
        count * final.now ≤ delays.sum + (count - 1) * longest ∧
        (count = 1 → final.now = delays.sum)) := by
  intro delays count final ran
  have hcount : 0 < count := workers_pos q (List.length_pos_iff.2 htasks)
  obtain ⟨longest, hmem, hle⟩ := exists_longest htasks
  have hlongest : 0 ≤ longest := (hdelays longest hmem).nonneg
  have hbounds : ∀ d ∈ delays, clock.Shows d ∧ d ≤ longest := fun d hd => ⟨hdelays d hd, hle d hd⟩
  have hleast : longest ≤ final.now :=
    Pool.le_now_run world observer hclock hdelays hcount longest hmem
  refine ⟨?_, longest, hmem, hle, hleast, fun hall => ?_, fun hsums => ?_⟩
  · have hlength : (Behaviour.jobs tasks : List (Job σ)).length = tasks.length := by
      simp [Behaviour.jobs]
    have hjobs : (Behaviour.jobs tasks : List (Job σ)) ≠ [] := by
      simpa [Behaviour.jobs] using htasks
    obtain ⟨warning, hnormal⟩ := Concurrency.normalize_finite q
    have hrun := run_of_normalize clock (Behaviour.jobs tasks) observer world hjobs hnormal
    rw [hlength] at hrun
    refine ⟨congrArg (·.outcome) hrun, ?_⟩
    simp only [ran, hrun, List.getLast?_append, List.getLast?_singleton, Option.some_or]
    rfl
  · have hmost : final.now ≤ longest := by
      simp only [final, hall]
      exact Pool.now_run_le world observer hclock hlongest hbounds
    exact le_antisymm hmost hleast
  · obtain ⟨hlow, hhigh⟩ :=
      Pool.shares_run hclock hsums hlongest hbounds world observer hcount
    refine ⟨hlow, hhigh, fun hone => ?_⟩
    have hcast : (count : Rat) = 1 := by rw [hone, Nat.cast_one]
    rw [hcast, one_mul] at hlow
    rw [hcast, one_mul, sub_self, zero_mul, add_zero] at hhigh
    exact le_antisymm hhigh hlow

/-- Four tasks of whole milliseconds, one of which throws at once. -/
def fourTasks : List (Task × Behaviour) :=
  [(⟨"c", "a", "/d/a", .upload⟩, .settles 3 (.ok ())),
    (⟨"c", "b", "/d/b", .upload⟩, .throws (.general "denied")),
    (⟨"c", "e", "/d/e", .upload⟩, .settles 2 (.error (.general "lost"))),
    (⟨"c", "f", "/d/f", .upload⟩, .settles 2 (.ok ()))]

/-- Two workers need four milliseconds for seven, so one of them is idle for one. -/
theorem run_makespan_four_tasks :
    let delays := Behaviour.delays fourTasks
    let final := pool .binary () .silent (Behaviour.jobs fourTasks) 2
    (Clock.binary.Steady ∧ fourTasks ≠ [] ∧ (∀ d ∈ delays, Clock.binary.Shows d) ∧
      Clock.binary.ShowsSums delays ∧ workers (5 / 2) fourTasks.length = 2) ∧
    (run .binary (Behaviour.jobs fourTasks) (.finite (5 / 2)) .silent ()).events.getLast? =
      some (.log "Batch finished in 4ms: 2 succeeded, 2 failed") ∧
    final.now = 4 ∧ 3 ≤ final.now ∧ 7 ≤ 2 * final.now ∧ 2 * final.now ≤ 7 + (2 - 1) * 3 := by
  intro delays final
  have htasks : fourTasks ≠ [] := List.cons_ne_nil _ _
  have hwhole : ∀ d ∈ delays, ∃ n : Nat, d = n := by
    intro d hd
    simp only [delays, fourTasks, Behaviour.delays, List.map_cons, List.map_nil, Behaviour.delay,
      List.mem_cons, List.not_mem_nil, or_false] at hd
    rcases hd with rfl | rfl | rfl | rfl
    · exact ⟨3, rfl⟩
    · exact ⟨0, rfl⟩
    · exact ⟨2, rfl⟩
    · exact ⟨2, rfl⟩
  have hsums : Clock.binary.ShowsSums delays := Clock.showsSums_binary hwhole (by decide +kernel)
  have hshows : ∀ d ∈ delays, Clock.binary.Shows d := hsums.shows (by decide +kernel)
  have hcount : workers (5 / 2) fourTasks.length = 2 := by decide +kernel
  have hnow : final.now = 4 := by decide +kernel
  obtain ⟨⟨-, hlast⟩, longest, hmem, hle, hleast, -, hshares⟩ :=
    run_makespan Clock.steady_binary htasks hshows (5 / 2) .silent ()
  have hlongest : longest = 3 := by
    refine le_antisymm ?_ (hle 3 (by decide +kernel))
    have hthree : ∀ d ∈ delays, d ≤ 3 := by decide +kernel
    exact hthree longest hmem
  have hsum : delays.sum = 7 := by decide +kernel
  obtain ⟨hlow, hhigh, -⟩ := hshares hsums
  rw [hcount, hlongest] at hleast
  rw [hcount, hsum, Nat.cast_two] at hlow
  rw [hcount, hsum, hlongest, Nat.cast_two] at hhigh
  rw [hcount] at hlast
  refine ⟨⟨Clock.steady_binary, htasks, hshows, hsums, hcount⟩, ?_, hnow, hleast, hlow, hhigh⟩
  rw [hlast]
  decide +kernel

/-- By the machine's clock a millisecond after `2 ^ 53` of them is lost. -/
theorem not_run_makespan :
    ¬ ∀ (tasks : List (Task × Behaviour)) (q : Rat), tasks ≠ [] →
      (∀ d ∈ Behaviour.delays tasks, (∃ n : Nat, d = n) ∧ Clock.binary.Shows d) →
      ∀ longest ∈ Behaviour.delays tasks, (∀ d ∈ Behaviour.delays tasks, d ≤ longest) →
        let count := workers q tasks.length
        let final := pool .binary () .silent (Behaviour.jobs tasks) count
        longest ≤ final.now ∧
          (Behaviour.delays tasks).sum ≤ count * final.now ∧
          count * final.now ≤ (Behaviour.delays tasks).sum + (count - 1) * longest ∧
          (count = 1 → final.now = (Behaviour.delays tasks).sum) ∧
          (count = tasks.length → final.now = longest) := by
  intro h
  let tasks : List (Task × Behaviour) :=
    [(⟨"c", "a", "/d/a", .upload⟩, .settles (2 ^ 53 : Nat) (.ok ())),
      (⟨"c", "b", "/d/b", .upload⟩, .settles (1 : Nat) (.ok ()))]
  have hwhole : ∀ d ∈ Behaviour.delays tasks, (∃ n : Nat, d = n) ∧ Clock.binary.Shows d := by
    intro d hd
    rcases List.mem_cons.1 hd with rfl | hd
    · exact ⟨⟨2 ^ 53, rfl⟩, by decide +kernel, by decide +kernel⟩
    · rw [List.mem_singleton.1 hd]
      exact ⟨⟨1, rfl⟩, by decide +kernel, by decide +kernel⟩
  obtain ⟨-, hsum, -⟩ := h tasks 1 (List.cons_ne_nil _ _) hwhole (2 ^ 53 : Nat) (by decide +kernel)
    (by decide +kernel)
  revert hsum
  decide +kernel

end Dispatch

end BulkTransfer
