import BulkTransfer.Dispatch
import BulkTransfer.Proofs.Pool.Keeping
import BulkTransfer.Proofs.Pool.Logging

/-!
# Batches of any jobs

A batch is refused exactly when it has jobs and its concurrency is not finite (`run_of_not_finite`);
then nothing happens.  Otherwise it leaves what its pool leaves (`run_of_finite`): one result for
each job (`exists_finished`), the properties that its operations keep and the logs that they write
(`run_logs`).
-/

namespace BulkTransfer

/-- A finite number is rounded down, and is at least one. -/
theorem Concurrency.normalize_finite (q : Rat) :
    ∃ warning, normalize (.finite q) = .ok ((max 1 q.floor).toNat, warning) := by
  rw [normalize, least]
  split
  · next h =>
    have hmax : (max 1 q.floor).toNat = 1 := by omega
    rw [hmax]
    exact ⟨_, rfl⟩
  · next h =>
    have hmax : max 1 q.floor = q.floor := by omega
    rw [hmax]
    exact ⟨none, rfl⟩

theorem Concurrency.normalize_of_not_finite {n : Number} (h : n.isFinite = false) :
    normalize n = .error (notFinite n) := by
  cases n with
  | finite q => cases h
  | nan => rfl
  | infinite negative => rfl

namespace Dispatch

variable {σ τ : Type} (clock : Clock) (jobs : List (Job σ)) (observer : Observer τ) (world : σ)

theorem run_nil (concurrency : Number) :
    run clock ([] : List (Job σ)) concurrency observer world = ⟨⟨.ok [], world, []⟩, 0⟩ := rfl

/-- Without a finite concurrency no job is called. -/
theorem run_of_not_finite {concurrency : Number} (hjobs : jobs ≠ [])
    (h : concurrency.isFinite = false) :
    run clock jobs concurrency observer world =
      ⟨⟨.error (Concurrency.notFinite concurrency), world, []⟩, 0⟩ := by
  rw [run, if_neg (by simpa using hjobs), Concurrency.normalize_of_not_finite h]

/-- With an accepted concurrency a batch is the run of a pool between two lines. -/
theorem run_of_normalize {concurrency : Number} {count : Nat} {warning : Option Text}
    (hjobs : jobs ≠ []) (h : Concurrency.normalize concurrency = .ok (count, warning)) :
    run clock jobs concurrency observer world =
      let final := pool clock world observer jobs (min count jobs.length)
      { outcome := .ok final.results
        world := final.world
        events := warning.toList.map Event.warn ++
          [openingLine jobs.length (min count jobs.length)] ++ final.events ++
          [closingLine final.now final.results]
        peak := final.peak } := by
  rw [run, if_neg (by simpa using hjobs), h]

/-- With a finite concurrency a batch leaves what its pool of workers leaves. -/
theorem run_of_finite {concurrency : Number} (hjobs : jobs ≠ []) (h : concurrency.isFinite = true) :
    ∃ workers, 0 < workers ∧ workers ≤ jobs.length ∧
      (run clock jobs concurrency observer world).outcome =
        .ok (pool clock world observer jobs workers).results ∧
      (run clock jobs concurrency observer world).world =
        (pool clock world observer jobs workers).world := by
  cases concurrency with
  | nan => cases h
  | infinite negative => cases h
  | finite q =>
    obtain ⟨warning, hnormal⟩ := Concurrency.normalize_finite q
    have hlength : 0 < jobs.length := List.length_pos_iff.2 hjobs
    refine ⟨min (max 1 q.floor).toNat jobs.length, by omega, by omega, ?_, ?_⟩
    all_goals rw [run_of_normalize clock jobs observer world hjobs hnormal]

variable {clock jobs world}

/-- A batch that is not refused finishes each job with one result, which stands at the place of the
job, and what its operations keep holds in the end. -/
theorem exists_finished {kept : σ → List (Nat × TransferResult) → Prop}
    {ends : σ → Nat → TransferResult → Prop} {flies : Time → Flight σ → Prop} {concurrency : Number}
    (hk : Pool.Keeps clock jobs kept ends flies) (hstart : kept world [])
    (h : concurrency.isFinite = true) :
    ∃ results finished, (run clock jobs concurrency observer world).outcome = .ok results ∧
      results.length = jobs.length ∧ (∀ i r, results[i]? = some r ↔ (i, r) ∈ finished) ∧
      kept (run clock jobs concurrency observer world).world finished := by
  by_cases hjobs : jobs = []
  · subst hjobs
    exact ⟨[], [], rfl, rfl, by simp, hstart⟩
  · obtain ⟨workers, hpos, -, hout, hworld⟩ := run_of_finite clock jobs observer world hjobs h
    obtain ⟨hlength, hget⟩ := Pool.results_run (Pool.tracks_start clock world observer jobs workers)
      (Pool.busy_start clock world observer jobs hpos)
    exact ⟨_, _, hout, hlength, hget, hworld ▸ hk.run hstart observer workers⟩

/-- A batch that is not refused gives one result for each job, in the order of the jobs, and it is
one of the job's own operation. -/
theorem exists_results (clock : Clock) (jobs : List (Job σ)) (observer : Observer τ) (world : σ)
    {concurrency : Number} (h : concurrency.isFinite = true) :
    ∃ results, (run clock jobs concurrency observer world).outcome = .ok results ∧
      results.length = jobs.length ∧
      ∀ (i : Nat) (job : Job σ), jobs[i]? = some job →
        ∃ r, results[i]? = some r ∧ job.Yields r := by
  obtain ⟨results, finished, hout, hlength, hget, hyields⟩ :=
    exists_finished observer (Pool.keeps_yields clock jobs)
      (fun x hx => absurd hx List.not_mem_nil : ∀ x ∈ [], _) h
  refine ⟨results, hout, hlength, fun i job hi => ?_⟩
  have hlt : i < results.length := hlength ▸ (List.getElem?_eq_some_iff.1 hi).1
  have hr : results[i]? = some results[i] := List.getElem?_eq_getElem hlt
  obtain ⟨found, hfound, hyield⟩ := hyields _ ((hget i _).1 hr)
  rw [hi] at hfound
  cases hfound
  exact ⟨_, hr, hyield⟩

section

variable {results : List TransferResult} (hlength : results.length = jobs.length)
  (hget : ∀ (i : Nat) (job : Job σ), jobs[i]? = some job → ∃ r, results[i]? = some r ∧ job.Yields r)

include hlength hget

/-- The results of a batch are those of its tasks, in their order. -/
theorem map_task_of_yields : results.map TransferResult.task = jobs.map Job.task := by
  refine List.ext_getElem? fun i => ?_
  rw [List.getElem?_map, List.getElem?_map]
  cases hi : jobs[i]? with
  | none =>
    have hle := List.getElem?_eq_none_iff.1 hi
    rw [List.getElem?_eq_none (by omega)]
    rfl
  | some job =>
    obtain ⟨r, hr, hyields⟩ := hget i job hi
    rw [hr, Option.map_some, Option.map_some, hyields.task_eq]

theorem exists_yields_of_mem {r : TransferResult} (hr : r ∈ results) :
    ∃ job ∈ jobs, job.Yields r := by
  obtain ⟨i, hi, rfl⟩ := List.mem_iff_getElem.1 hr
  have hlt : i < jobs.length := hlength ▸ hi
  obtain ⟨r, hfound, hyields⟩ := hget i jobs[i] (List.getElem?_eq_getElem hlt)
  rw [List.getElem?_eq_getElem hi] at hfound
  exact ⟨_, List.getElem_mem _, Option.some.inj hfound ▸ hyields⟩

end

/-- Each result of a batch that resolves is one of the operation of a job. -/
theorem exists_yields_of_run {concurrency : Number} {observer : Observer τ}
    {results : List TransferResult} {r : TransferResult}
    (h : (run clock jobs concurrency observer world).outcome = .ok results) (hr : r ∈ results) :
    ∃ job ∈ jobs, job.Yields r := by
  by_cases hjobs : jobs = []
  · subst hjobs
    rw [run_nil] at h
    cases h
    exact absurd hr List.not_mem_nil
  · cases hfinite : concurrency.isFinite with
    | false =>
      rw [run_of_not_finite clock jobs observer world hjobs hfinite] at h
      cases h
    | true =>
      obtain ⟨found, hfound, hlength, hget⟩ := exists_results clock jobs observer world hfinite
      obtain rfl : results = found := Except.ok.inj (h.symm.trans hfound)
      exact exists_yields_of_mem hlength hget hr

theorem map_task_map {job : Task → Job σ} (hjob : ∀ task, (job task).task = task)
    (tasks : List Task) : (tasks.map job).map Job.task = tasks := by
  have hid : Job.task ∘ job = id := funext hjob
  rw [List.map_map, hid, List.map_id]

/-- The results of a batch that is not refused are those of its tasks, in their order. -/
theorem exists_results_of_tasks (clock : Clock) (jobs : List (Job σ)) (observer : Observer τ)
    (world : σ) {concurrency : Number} (h : concurrency.isFinite = true) :
    ∃ results, (run clock jobs concurrency observer world).outcome = .ok results ∧
      results.map TransferResult.task = jobs.map Job.task := by
  obtain ⟨results, hout, hlength, hget⟩ := exists_results clock jobs observer world h
  exact ⟨results, hout, map_task_of_yields hlength hget⟩

/-- A batch that is not refused writes the entries of all its jobs in their order. -/
theorem run_logs (clock : Clock) (observer : Observer τ) (world : σ) {α : Type}
    {log : σ → List α} {entries : Job σ → List α} {concurrency : Number}
    (hl : Pool.Logs jobs log entries) (h : concurrency.isFinite = true) :
    log (run clock jobs concurrency observer world).world = log world ++ jobs.flatMap entries := by
  by_cases hjobs : jobs = []
  · subst hjobs
    simp [run_nil]
  · obtain ⟨workers, hpos, -, -, hworld⟩ := run_of_finite clock jobs observer world hjobs h
    rw [hworld]
    exact hl.run clock world observer hpos

end Dispatch

end BulkTransfer
