import BulkTransfer.Proofs.Transfer.Writing

/-!
# Batches over a store in memory

Over a store in memory each job of a transfer is refused, or waits and then does all its work at
once.  So a property of the content of the site and of the results so far that the refusals and the
work of the tasks keep (`Kept`) holds of the results of the batch, whatever the clock, the delays
and the number of workers (`Kept.exists_results`).  A download either is such a batch
(`download_kept`) or throws and leaves the content as it is (`download_cases`).
-/

namespace BulkTransfer

namespace Site

variable {direction : Direction} {refusal : Task → Option Thrown} {tasks : List Task}
  {kept : Site → List TransferResult → Prop} {s t : Site}

/-! ## Jobs -/

/-- The job that moves one object, unless it is refused. -/
def job (direction : Direction) (refusal : Task → Option Thrown) (task : Task) : Job Site :=
  { task
    call := fun s =>
      match refusal task with
      | some error => (.refused error, s)
      | none => operation direction task s }

theorem uploadJob_transport :
    Transfer.uploadJob transport = job .upload fun _ => none := rfl

theorem downloadJob_transport (cwd : Path) (destination : Text)
    (collisions : OrderedMap Text Text) :
    Transfer.downloadJob transport cwd destination collisions =
      job .download (Transfer.refusal? cwd destination collisions) := rfl

theorem call_of_refusal {task : Task} {error : Thrown} (h : refusal task = some error) :
    (job direction refusal task).call = fun s => (.refused error, s) := by
  simp only [job, h]

theorem call_of_no_refusal {task : Task} (h : refusal task = none) :
    (job direction refusal task).call = operation direction task := by
  simp only [job, h]

/-- How a task ends when it is the only one. -/
def outcomeOf (direction : Direction) (refusal : Task → Option Thrown) (s : Site) (task : Task) :
    Except Thrown Unit :=
  match refusal task with
  | some error => .error error
  | none => (work direction task s).1

/-! ## Content -/

/-- Two sites hold the same files and objects, and fail at the same. -/
structure SameContent (s t : Site) : Prop where
  files : t.files = s.files
  containers : t.store.containers = s.store.containers
  failures : t.store.failures = s.store.failures
  listingFailure : t.store.listingFailure = s.store.listingFailure

theorem sameContent_enter (direction : Direction) (task : Task) (s : Site) :
    SameContent s (s.enter direction task) := ⟨rfl, rfl, rfl, rfl⟩

theorem sameContent_leave (s : Site) : SameContent s { s with store := s.store.leave } :=
  ⟨rfl, rfl, rfl, rfl⟩

/-! ## Work -/

theorem fetchFile_of_failure {task : Task} {error : Thrown}
    (h : s.store.failureOf task.objectName = some error) :
    fetchFile task s = (.error error, s) := by
  simp only [fetchFile, h]

theorem fetchFile_of_no_object {task : Task} (h : s.store.failureOf task.objectName = none)
    (hobject : s.objectOf task = none) :
    fetchFile task s = (.error (Store.noObject task.container task.objectName), s) := by
  rw [objectOf] at hobject
  simp only [fetchFile, h, hobject]

/-- Fetching an object is writing it under the task's local path. -/
theorem fetchFile_of_object {task : Task} {content : Bytes}
    (h : s.store.failureOf task.objectName = none) (hobject : s.objectOf task = some content) :
    fetchFile task s =
      ((s.files.writeUnder task.localPath content).1.mapError FileError.thrown,
        { s with files := (s.files.writeUnder task.localPath content).2 }) := by
  rw [objectOf] at hobject
  simp only [fetchFile, h, hobject]
  cases s.files.writeUnder task.localPath content with
  | mk outcome files => cases outcome <;> rfl

/-! ## What refusals and work keep -/

/-- The refusals and the work of tasks keep a property of the content of a site and of the results
so far. -/
structure Kept (direction : Direction) (refusal : Task → Option Thrown) (tasks : List Task)
    (kept : Site → List TransferResult → Prop) : Prop where
  congr : ∀ {s t results}, SameContent s t → kept s results → kept t results
  refused : ∀ {task error s results}, task ∈ tasks → refusal task = some error → kept s results →
    ∀ duration, kept s (results ++ [.failure task error duration])
  done : ∀ {task s results}, task ∈ tasks → refusal task = none → kept s results →
    ∀ duration, kept (work direction task s).2
      (results ++ [.ofOutcome task (work direction task s).1 duration])

theorem getElem?_jobs {n : Nat} {j : Job Site}
    (h : (tasks.map (job direction refusal))[n]? = some j) :
    ∃ task ∈ tasks, tasks[n]? = some task ∧ j = job direction refusal task := by
  rw [List.getElem?_map, Option.map_eq_some_iff] at h
  obtain ⟨task, htask, rfl⟩ := h
  exact ⟨task, List.mem_of_getElem? htask, htask, rfl⟩

theorem Kept.keeps (hk : Kept direction refusal tasks kept) (clock : Clock) :
    Pool.Keeps clock (tasks.map (job direction refusal))
      (fun s finished => kept s (finished.map Prod.snd))
      (fun _ _ r => ∃ task ∈ tasks, ∃ error, refusal task = some error ∧
        ∃ duration, r = .failure task error duration)
      (fun _ flight => flight.task ∈ tasks ∧ refusal flight.task = none ∧
        flight.finish = land direction flight.task) where
  call := fun {_ w _ _} hjob h => by
    obtain ⟨task, -, -, rfl⟩ := getElem?_jobs hjob
    cases hr : refusal task with
    | some error => rwa [call_of_refusal hr]
    | none =>
      rw [call_of_no_refusal hr]
      exact hk.congr (sameContent_enter direction task w) h
  throws := fun hjob hthrows => by
    obtain ⟨task, -, -, rfl⟩ := getElem?_jobs hjob
    cases hr : refusal task with
    | some error => rw [call_of_refusal hr] at hthrows; cases hthrows
    | none => rw [call_of_no_refusal hr] at hthrows; cases hthrows
  refused := fun hjob hrefused duration => by
    obtain ⟨task, htask, -, rfl⟩ := getElem?_jobs hjob
    cases hr : refusal task with
    | some error =>
      rw [call_of_refusal hr] at hrefused
      cases hrefused
      exact ⟨task, htask, _, hr, duration, rfl⟩
    | none => rw [call_of_no_refusal hr] at hrefused; cases hrefused
  waits := fun hjob hwaits _ => by
    obtain ⟨task, htask, -, rfl⟩ := getElem?_jobs hjob
    cases hr : refusal task with
    | some error => rw [call_of_refusal hr] at hwaits; cases hwaits
    | none =>
      rw [call_of_no_refusal hr] at hwaits
      cases hwaits
      exact ⟨htask, hr, rfl⟩
  ends_call := fun _ h => h
  ends_land := fun _ h => h
  conclude := fun hends h => by
    obtain ⟨task, htask, error, hr, duration, rfl⟩ := hends
    rw [List.map_append]
    exact hk.refused htask hr h duration
  land := fun {due w finished flight} hflies h => by
    obtain ⟨htask, hr, hfinish⟩ := hflies
    rw [hfinish, List.map_append]
    exact hk.congr (sameContent_leave _) (hk.done htask hr h _)

/-- A batch that is not refused gives the results of its tasks in their order, and what refusals and
work keep holds of these results in the order in which they came. -/
theorem Kept.exists_results {τ : Type} (hk : Kept direction refusal tasks kept) {s : Site}
    (hstart : kept s []) (clock : Clock) (observer : Observer τ) {concurrency : Number}
    (h : concurrency.isFinite = true) :
    let ran := Dispatch.run clock (tasks.map (job direction refusal)) concurrency observer s
    ∃ results done, ran.outcome = .ok results ∧ results.map TransferResult.task = tasks ∧
      (∀ r, r ∈ results ↔ r ∈ done) ∧ kept ran.world done := by
  obtain ⟨results, finished, hout, hlength, hget, hkept⟩ :=
    Dispatch.exists_finished observer (hk.keeps clock) hstart h
  obtain ⟨found, hfound, -, hyields⟩ :=
    Dispatch.exists_results clock (tasks.map (job direction refusal)) observer s h
  obtain rfl : results = found := Except.ok.inj (hout.symm.trans hfound)
  refine ⟨results, finished.map Prod.snd, hout, ?_, fun r => ?_, hkept⟩
  · rw [Dispatch.map_task_of_yields hlength hyields]
    exact Dispatch.map_task_map (fun _ => rfl) tasks
  · rw [List.mem_iff_getElem?, List.mem_map]
    constructor
    · rintro ⟨i, hi⟩
      exact ⟨(i, r), (hget i r).1 hi, rfl⟩
    · rintro ⟨⟨i, _⟩, hmem, rfl⟩
      exact ⟨i, (hget i _).2 hmem⟩

end Site

namespace Transfer

/-! ## Results -/

theorem succeeded_ofOutcome {task : Task} {outcome : Except Thrown Unit} {duration : Time} :
    (TransferResult.ofOutcome task outcome duration).succeeded = true ↔ outcome = .ok () := by
  cases outcome with
  | error error => exact iff_of_false Bool.false_ne_true (fun e => by cases e)
  | ok _ => exact iff_of_true rfl rfl

/-- The results without their durations. -/
def outcomes (results : List TransferResult) : List (Task × Bool × Option FailureDetail) :=
  results.map fun r => (r.task, r.succeeded, r.detail)

theorem outcomes_of_alone {outcome : Task → Except Thrown Unit} {results : List TransferResult}
    (h : ∀ r ∈ results, ∃ duration, r = .ofOutcome r.task (outcome r.task) duration) :
    outcomes results =
      outcomes ((results.map TransferResult.task).map fun t => .ofOutcome t (outcome t) 0) := by
  rw [outcomes, outcomes, List.map_map, List.map_map]
  refine List.map_congr_left fun r hr => ?_
  obtain ⟨duration, heq⟩ := h r hr
  rw [Function.comp_apply, Function.comp_apply]
  conv_lhs => rw [heq]
  cases outcome r.task <;> rfl

/-! ## Downloads -/

variable {τ : Type} {host : Host} {request : Request} {observer : Observer τ} {site : Site}

/-- The refusals of a batch of download tasks. -/
def batchRefusal (cwd : Path) (destination : Text) (tasks : List Task) : Task → Option Thrown :=
  refusal? cwd destination (Collisions.find cwd tasks)

theorem sameContent_listed (request : Request) (site : Site) :
    Site.SameContent site (listed Site.transport request site).world :=
  ⟨rfl, rfl, rfl, rfl⟩

theorem fault?_congr {n m : Number} (hn : n.isFinite = true) (hm : m.isFinite = true)
    (container : Text) (keyPrefix : Option Text) :
    fault? container n keyPrefix = fault? container m keyPrefix := by
  simp [fault?, hn, hm]

theorem download_of_fault (observer : Observer τ) {fault : RequestFault}
    (h : fault? request.container (concurrencyOf host request).1 request.keyPrefix = some fault) :
    (download host Site.transport request observer site).outcome = .error fault.thrown ∧
      Site.SameContent site (download host Site.transport request observer site).world := by
  simp only [download, check, h, Ran.throw, Ran.after, Ran.andThen]
  exact ⟨trivial, rfl, rfl, rfl, rfl⟩

theorem download_of_unlisted (observer : Observer τ) {error : Thrown}
    (hfault : fault? request.container (concurrencyOf host request).1 request.keyPrefix = none)
    (hlist : (listed Site.transport request site).outcome = .error error) :
    (download host Site.transport request observer site).outcome =
        .error (Enumeration.cannotListContainer request.container error) ∧
      Site.SameContent site (download host Site.transport request observer site).world := by
  have hfailed : Enumeration.ofContainer Site.transport.list (Site.transport.files site).cwd
      request.container request.directory request.keyPrefix site =
        ⟨.error (Enumeration.cannotListContainer request.container error),
          (listed Site.transport request site).world,
          (listed Site.transport request site).events⟩ := by
    rw [listed] at hlist
    simp only [Enumeration.ofContainer, hlist]
    rfl
  simp only [download, check_of_fault?_eq_none host hfault, Ran.andThen, hfailed]
  exact ⟨rfl, sameContent_listed request site⟩

/-- A download has listed its container, or it throws and has changed nothing. -/
theorem download_cases (host : Host) (request : Request) (observer : Observer τ) (site : Site) :
    (∃ names, fault? request.container (concurrencyOf host request).1 request.keyPrefix = none ∧
        (listed Site.transport request site).outcome = .ok names) ∨
      Site.SameContent site (download host Site.transport request observer site).world := by
  cases hf : fault? request.container (concurrencyOf host request).1 request.keyPrefix with
  | some fault => exact .inr (download_of_fault observer hf).2
  | none =>
    cases hl : (listed Site.transport request site).outcome with
    | ok names => exact .inl ⟨names, rfl, rfl⟩
    | error error => exact .inr (download_of_unlisted observer hf hl).2

/-- What the refusals and the fetches of the listed tasks keep holds of the results of a
download. -/
theorem download_kept {names : List Text}
    {kept : Site → List TransferResult → Prop} (observer : Observer τ)
    (hfault : fault? request.container (concurrencyOf host request).1 request.keyPrefix = none)
    (hlist : (listed Site.transport request site).outcome = .ok names)
    (hk : Site.Kept .download
      (batchRefusal site.files.cwd request.directory (listedTasks site.files.cwd request names))
      (listedTasks site.files.cwd request names) kept) (hstart : kept site []) :
    let ran := download host Site.transport request observer site
    ∃ results done, ran.outcome = .ok results ∧
      results.map TransferResult.task = listedTasks site.files.cwd request names ∧
      (∀ r, r ∈ results ↔ r ∈ done) ∧ kept ran.world done := by
  obtain ⟨hout, hworld⟩ := download_of_listed observer hfault hlist
  rw [listedJobs, Site.downloadJob_transport] at hout hworld
  obtain ⟨results, done, hresults, htasks, hmem, hkept⟩ := hk.exists_results
    (hk.congr (sameContent_listed request site) hstart) host.clock observer
    (isFinite_of_fault?_eq_none hfault)
  exact ⟨results, done, hout.trans hresults, htasks, hmem, hworld ▸ hkept⟩

/-- Tasks as a listing gives them: in strictly increasing order of their names, with paths in normal
form. -/
structure AreListed (tasks : List Task) : Prop where
  sorted : tasks.Pairwise fun s t => s.objectName < t.objectName
  normal : ∀ task ∈ tasks, ∃ p : Path, p.IsNormal ∧ task.localPath = Path.text p

theorem areListed_listedTasks {cwd : Path} (hcwd : cwd.IsNormal) (request : Request)
    (names : List Text) : AreListed (listedTasks cwd request names) :=
  ⟨pairwise_listedTasks _ _ _, fun _ => exists_path_of_mem_listedTasks hcwd⟩

/-- The path of a task that is not refused goes on below the destination. -/
theorem exists_below_of_not_refused {cwd : Path} (hcwd : cwd.IsNormal) {destination : Text}
    {tasks : List Task} (htasks : AreListed tasks) {task : Task} (htask : task ∈ tasks)
    (h : batchRefusal cwd destination tasks task = none) :
    ∃ below name, Path.IsNormal (Path.resolve cwd destination ++ below ++ [name]) ∧
      task.localPath = Path.text (Path.resolve cwd destination ++ below ++ [name]) := by
  obtain ⟨p, hp, hpath⟩ := htasks.normal task htask
  have hadmitted := (refusal?_eq_none_iff hcwd htasks.sorted htask).1 h
  obtain ⟨⟨rest, hrest⟩, hne⟩ := hadmitted.inside
  rw [hpath, Path.resolve_text _ hp] at hrest hne
  rcases List.eq_nil_or_concat rest with rfl | ⟨below, name, rfl⟩
  · exact absurd (by simpa using hrest) hne
  · rw [List.concat_eq_append, ← List.append_assoc] at hrest
    exact ⟨below, name, hrest ▸ hp, hrest ▸ hpath⟩

/-- A task writes to its name below the place of its directory. -/
theorem placeOf_of_path {task : Task} {directory : Path} {name : Text}
    (hp : Path.IsNormal (directory ++ [name]))
    (hpath : task.localPath = Path.text (directory ++ [name])) :
    placeOf site task = directory.map Text.stored ++ [Text.stored name] := by
  rw [placeOf, hpath, Files.standing_text _ hp, List.map_append]
  rfl

end Transfer

end BulkTransfer
