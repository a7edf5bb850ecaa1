import BulkTransfer.Outcome
import BulkTransfer.Proofs.Dispatch.Waiting
import BulkTransfer.Proofs.Pool.Chronology
import BulkTransfer.Proofs.Pool.Trace

/-!
# What a batch shows

An observer leaves a batch as it is, but for what it shows at the reports (`run_retell`): one that
throws brings a warning after each report at which it throws (`run_recording`).  Between its first
lines and its last one a batch shows the sightings of its tasks: the tasks start in their order, the
reports count up, and each task shows its start, the line about its failure if it failed, and its
report, in this order.  By a steady clock, such as the machine's, the times never go back, and the
last line gives the counts of the outcome (`run_chronicle`).
-/

namespace BulkTransfer

/-- A warning says nothing about the time. -/
theorem times_heard (error : Nat → Option Thrown) (e : Event) :
    times (heard error e) = times [e] := by
  cases e with
  | console level text => rfl
  | started object time => rfl
  | progress object succeeded completed total time =>
    rw [heard, Pool.noticeEvents_eq]
    cases error completed <;> rfl

theorem times_flatMap_heard (error : Nat → Option Thrown) (events : List Event) :
    times (events.flatMap (heard error)) = times events := by
  induction events with
  | nil => rfl
  | cons e events ih =>
    rw [List.flatMap_cons, times_append, times_heard, ih]
    exact (times_append [e] events).symm

theorem times_map_warn (texts : List Text) : times (texts.map Event.warn) = [] :=
  List.filterMap_eq_nil_iff.2 fun _ h => by
    obtain ⟨text, -, rfl⟩ := List.mem_map.1 h
    rfl

namespace Outcome

theorem counts_ofResults (results : List TransferResult) :
    (ofResults results).successCount + (ofResults results).failureCount = results.length :=
  Nat.sub_add_cancel (List.length_filter_le _ _)

end Outcome

namespace Dispatch

variable {σ : Type} {clock : Clock} {jobs : List (Job σ)}

theorem flatMap_heard_warnings (error : Nat → Option Thrown) (warning : Option Text) :
    (warning.toList.map Event.warn).flatMap (heard error) = warning.toList.map Event.warn :=
  (Observer.retells_recording error).flatMap_warnings warning

/-- An observer that tells each report in its own way changes nothing else. -/
theorem run_retell {τ : Type} {observer : Observer τ} {states : Nat → Nat → τ}
    {retold : Event → List Event} (h : observer.Retells states retold) (clock : Clock)
    (jobs : List (Job σ)) (concurrency : Number) (world : σ) :
    run clock jobs concurrency observer world =
      let quiet := run clock jobs concurrency .quiet world
      { quiet with events := quiet.events.flatMap retold } := by
  by_cases hjobs : jobs = []
  · subst hjobs
    rfl
  cases hnormal : Concurrency.normalize concurrency with
  | error refusal =>
    rw [run, run, if_neg (by simpa using hjobs), if_neg (by simpa using hjobs), hnormal]
    rfl
  | ok normal =>
    obtain ⟨count, warning⟩ := normal
    rw [run_of_normalize clock jobs _ world hjobs hnormal,
      run_of_normalize clock jobs _ world hjobs hnormal, pool, Pool.run_retell h]
    simp only [List.flatMap_append, h.flatMap_warnings, openingLine, closingLine, Event.log,
      h.flatMap_console]
    rfl

/-- What an observer throws is warned about, and changes nothing else. -/
theorem run_recording (clock : Clock) (jobs : List (Job σ)) (concurrency : Number) (world : σ)
    (error : Nat → Option Thrown) :
    run clock jobs concurrency (.recording error) world =
      let quiet := run clock jobs concurrency .quiet world
      { quiet with events := quiet.events.flatMap (heard error) } :=
  run_retell (Observer.retells_recording error) clock jobs concurrency world

/-- The times of a batch are those of its pool. -/
theorem times_run {concurrency : Number} {count : Nat} {warning : Option Text} {world : σ}
    (hjobs : jobs ≠ []) (h : Concurrency.normalize concurrency = .ok (count, warning)) :
    times (run clock jobs concurrency .quiet world).events =
      times (pool clock world .quiet jobs (min count jobs.length)).events := by
  have hopening : times [openingLine jobs.length (min count jobs.length)] = [] := rfl
  have hclosing : ∀ time results, times [closingLine time results] = [] := fun _ _ => rfl
  rw [run_of_normalize clock jobs _ world hjobs h]
  simp only [times_append, times_map_warn, hopening, hclosing, List.nil_append, List.append_nil]

theorem patient_behaving {tasks : List (Task × Behaviour)}
    (h : ∀ d ∈ Behaviour.delays tasks, 0 ≤ d) :
    Pool.Patient (Behaviour.jobs tasks : List (Job σ)) := by
  intro job hjob w delay finish hwaits
  obtain ⟨⟨task, b⟩, hmem, rfl⟩ := List.mem_map.1 hjob
  cases b with
  | throws error => cases hwaits
  | settles delay outcome =>
    cases hwaits
    exact h _ (List.mem_map.2 ⟨_, hmem, rfl⟩)

/-- A batch with the observer that never throws shows the sightings of its tasks. -/
theorem exists_chronicle (clock : Clock) (hjobs : jobs ≠ []) (q : Rat) (world : σ) :
    ∃ results trace time, ∃ warning : Option Text,
      let ran := run clock jobs (.finite q) .quiet world
      ran.outcome = .ok results ∧ results.length = jobs.length ∧ Chronicle jobs results trace ∧
      ran.events = warning.toList.map Event.warn ++
        [openingLine jobs.length (workers q jobs.length)] ++
        trace.flatMap (Sighting.events (fun _ => none) jobs.length) ++
        [closingLine time results] := by
  have hpos : 0 < jobs.length := List.length_pos_iff.2 hjobs
  obtain ⟨warning, hnormal⟩ := Concurrency.normalize_finite q
  obtain ⟨trace, hchronicle, hevents⟩ :=
    Pool.exists_chronicle_run clock world jobs (workers_pos q hpos)
  have hfinite : (Number.finite q).isFinite = true := rfl
  obtain ⟨results, hout, hlength, -⟩ := exists_results clock jobs .quiet world hfinite
  have hrun := run_of_normalize clock jobs .quiet world hjobs hnormal
  rw [hrun] at hout
  obtain rfl := Except.ok.inj hout
  let final := pool clock world .quiet jobs (workers q jobs.length)
  refine ⟨final.results, trace, final.now, warning, congrArg (·.outcome) hrun, hlength,
    hchronicle, ?_⟩
  rw [hrun, ← hevents]
  rfl

/-- Whatever the observer throws, a batch gives the same results and shows the same sightings of its
tasks; only a warning stands right after each report at which it throws.  The tasks start in their
order, each once, and the reports count from one to the number of tasks.  Each task shows its start,
then the line about its failure, with the message of its result, if that is no success, then its one
report.  The times never go back, and the last line gives the counts of the outcome, which add up to
the number of tasks. -/
theorem run_chronicle (hclock : clock.Steady) (hpatient : Pool.Patient jobs) (hjobs : jobs ≠ [])
    (q : Rat) (world : σ) :
    ∃ results trace time, ∃ warning : Option Text,
      results.map TransferResult.task = jobs.map Job.task ∧
      (∀ r ∈ results, r.detail.isNone = r.succeeded) ∧
      Chronicle jobs results trace ∧
      (Outcome.ofResults results).successCount + (Outcome.ofResults results).failureCount =
        jobs.length ∧
      ∀ error : Nat → Option Thrown,
        let ran := run clock jobs (.finite q) (.recording error) world
        ran.outcome = .ok results ∧
        ran.events = warning.toList.map Event.warn ++
          [openingLine jobs.length (workers q jobs.length)] ++
          trace.flatMap (Sighting.events error jobs.length) ++
          [.log ("Batch finished in " ++ Time.text time ++ "ms: " ++
            Text.ofNat (Outcome.ofResults results).successCount ++ " succeeded, " ++
            Text.ofNat (Outcome.ofResults results).failureCount ++ " failed")] ∧
        (times ran.events).Pairwise (· ≤ ·) := by
  have hpos : 0 < jobs.length := List.length_pos_iff.2 hjobs
  obtain ⟨warning, hnormal⟩ := Concurrency.normalize_finite q
  obtain ⟨trace, hchronicle, hevents⟩ :=
    Pool.exists_chronicle_run clock world jobs (workers_pos q hpos)
  have hfinite : (Number.finite q).isFinite = true := rfl
  obtain ⟨results, hout, hlength, hget⟩ := exists_results clock jobs .quiet world hfinite
  have hrun := run_of_normalize clock jobs .quiet world hjobs hnormal
  rw [hrun] at hout
  obtain rfl := Except.ok.inj hout
  let final := pool clock world .quiet jobs (workers q jobs.length)
  have hordered := (Pool.chronological_run hclock hpatient world (workers q jobs.length)).ordered
  refine ⟨final.results, trace, final.now, warning, map_task_of_yields hlength hget,
    fun r hr => ?_, hchronicle, (Outcome.counts_ofResults _).trans hlength, fun error => ?_⟩
  · obtain ⟨job, -, hyields⟩ := exists_yields_of_mem hlength hget hr
    exact hyields.isNone_detail
  · rw [run_recording]
    refine ⟨congrArg (·.outcome) hrun, ?_, ?_⟩
    · have hheard : final.events.flatMap (heard error) =
          trace.flatMap (Sighting.events error jobs.length) := by
        rw [← Sighting.flatMap_heard_trace, ← hevents]
        rfl
      simp only [hrun, List.flatMap_append, flatMap_heard_warnings]
      exact congrArg (fun events => warning.toList.map Event.warn ++
        [openingLine jobs.length (workers q jobs.length)] ++ events ++
        [closingLine final.now final.results]) hheard
    · rw [times_flatMap_heard, times_run hjobs hnormal]
      exact hordered

/-- A task whose operation throws at once, and one that waits for a tenth of a millisecond. -/
def throwsAndWaits : List (Task × Behaviour) :=
  [(⟨"c", "a", "/d/a", .upload⟩, .throws (.general "denied")),
    (⟨"c", "b", "/d/b", .upload⟩, .settles (Number.rounded (1 / 10)) (.ok ()))]

theorem run_chronicle_throws_and_waits :
    let jobs : List (Job Unit) := Behaviour.jobs throwsAndWaits
    Clock.binary.Steady ∧ Pool.Patient jobs ∧ jobs ≠ [] ∧
      ∃ trace,
        signs 0 trace = [.start, .failure "denied", .report false] ∧
        signs 1 trace = [.start, .report true] ∧
        trace.filterMap Sighting.start? = [0, 1] ∧
        trace.filterMap Sighting.count? = [1, 2] ∧
        ∀ error : Nat → Option Thrown, ∃ first last,
          let ran := run .binary jobs (.finite 1) (.recording error) ()
          ran.events = first ++ trace.flatMap (Sighting.events error 2) ++ [last] ∧
          (times ran.events).Pairwise (· ≤ ·) := by
  intro jobs
  have hpatient : Pool.Patient jobs := patient_behaving (by decide +kernel)
  have hjobs : jobs ≠ [] := List.cons_ne_nil _ _
  obtain ⟨results, trace, time, warning, -, -, hchronicle, -, hran⟩ :=
    run_chronicle Clock.steady_binary hpatient hjobs 1 ()
  have hresults : results.map TransferResult.course =
      [[.start, .failure "denied", .report false], [.start, .report true]] := by
    have hout := (hran fun _ => none).1
    have hcourses := congrArg (fun o : Except Thrown (List TransferResult) =>
      o.toOption.map fun results => results.map TransferResult.course) hout
    exact Option.some.inj (hcourses.symm.trans (by decide +kernel))
  have hcourse : ∀ i course, (results.map TransferResult.course)[i]? = some course →
      signs i trace = course := by
    intro i course hi
    rw [List.getElem?_map, Option.map_eq_some_iff] at hi
    obtain ⟨r, hr, rfl⟩ := hi
    exact hchronicle.courses i r hr
  rw [hresults] at hcourse
  exact ⟨Clock.steady_binary, hpatient, hjobs, trace, hcourse 0 _ rfl, hcourse 1 _ rfl,
    hchronicle.starts, hchronicle.counts,
    fun error => ⟨_, _, (hran error).2.1, (hran error).2.2⟩⟩

end Dispatch

end BulkTransfer
