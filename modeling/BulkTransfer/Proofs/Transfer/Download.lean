import BulkTransfer.Proofs.Collisions
import BulkTransfer.Proofs.Dispatch.Basic
import BulkTransfer.Proofs.Enumeration.Remote
import BulkTransfer.Proofs.Path.Containment
import BulkTransfer.Transfer

/-!
# Downloads as batches

A download that is neither refused nor fails to list its container is the batch of the listed tasks
(`download_of_listed`), and only then does it resolve (`exists_names_of_download`).  A task of the
batch is refused exactly when it is not admitted (`refusal?_eq_none_iff`): when its name is not the
least one of its path, or its path is not strictly inside the destination.
-/

namespace BulkTransfer

/-! ## Runs one after the other -/

namespace Ran

variable {σ α β : Type} {r : Ran σ α} {next : α → σ → Ran σ β}

theorem outcome_andThen {a : α} (h : r.outcome = .ok a) :
    (r.andThen next).outcome = (next a r.world).outcome := by
  rw [andThen, h]
  rfl

/-- A run that ends with a value has begun with one. -/
theorem exists_of_andThen {b : β} (h : (r.andThen next).outcome = .ok b) :
    ∃ a, r.outcome = .ok a ∧ (next a r.world).outcome = .ok b := by
  cases hr : r.outcome with
  | error error => rw [andThen, hr] at h; cases h
  | ok a => exact ⟨a, rfl, by rwa [outcome_andThen hr] at h⟩

end Ran

namespace Transfer

variable {σ τ : Type}

/-! ## Checked requests -/

/-- The concurrency of a request is one that its check lets pass. -/
theorem isFinite_of_fault?_eq_none {container : Text} {n : Number} {keyPrefix : Option Text}
    (h : fault? container n keyPrefix = none) : n.isFinite = true := by
  rw [fault?] at h
  split at h
  · cases h
  · split at h
    · cases h
    · next hfinite => simpa using hfinite

theorem check_of_fault?_eq_none (host : Host) {request : Request}
    (h : fault? request.container (concurrencyOf host request).1 request.keyPrefix = none)
    (world : σ) :
    check host request world =
      ⟨.ok (concurrencyOf host request).1, world, (concurrencyOf host request).2⟩ := by
  simp [check, h, Ran.after, Ran.value]

theorem fault?_eq_none_of_check {host : Host} {request : Request} {world : σ} {n : Number}
    (h : (check host request world).outcome = .ok n) :
    fault? request.container (concurrencyOf host request).1 request.keyPrefix = none := by
  cases hf : fault? request.container (concurrencyOf host request).1 request.keyPrefix with
  | none => rfl
  | some fault => simp [check, hf, Ran.after, Ran.throw] at h

/-! ## Batches of listed tasks -/

def listed (transport : Transport σ) (request : Request) (world : σ) : Ran σ (List Text) :=
  transport.list request.container
    (Enumeration.listingPrefix (KeyPrefix.normalize request.keyPrefix)) world

/-- The tasks of a download of listed names. -/
def listedTasks (cwd : Path) (request : Request) (names : List Text) : List Task :=
  Enumeration.ofNames request.container (Path.resolve cwd request.directory)
    (KeyPrefix.normalize request.keyPrefix) names

theorem pairwise_listedTasks (cwd : Path) (request : Request) (names : List Text) :
    (listedTasks cwd request names).Pairwise fun s t => s.objectName < t.objectName :=
  Enumeration.pairwise_ofNames _ _ _ _

/-- The local path of a listed task is the text of a path in normal form. -/
theorem exists_path_of_mem_listedTasks {cwd : Path} (hcwd : cwd.IsNormal) {request : Request}
    {names : List Text} {task : Task} (h : task ∈ listedTasks cwd request names) :
    ∃ p : Path, p.IsNormal ∧ task.localPath = Path.text p := by
  obtain ⟨name, -, -, rfl⟩ := (Enumeration.mem_ofNames_iff _ _ _ _).1 h
  exact ⟨_, Path.isNormal_join (Path.isNormal_resolve hcwd request.directory) _, rfl⟩

def listedJobs (transport : Transport σ) (cwd : Path) (request : Request) (names : List Text) :
    List (Job σ) :=
  let tasks := listedTasks cwd request names
  tasks.map (downloadJob transport cwd request.directory (Collisions.find cwd tasks))

variable {host : Host} {transport : Transport σ} {request : Request} {world : σ} {names : List Text}

/-- A download of an accepted request whose container is listed is the batch of the listed
tasks. -/
theorem download_of_listed (observer : Observer τ)
    (hfault : fault? request.container (concurrencyOf host request).1 request.keyPrefix = none)
    (hlist : (listed transport request world).outcome = .ok names) :
    let ran := download host transport request observer world
    let batch := Dispatch.run host.clock
      (listedJobs transport (transport.files world).cwd request names)
      (concurrencyOf host request).1 observer (listed transport request world).world
    ran.outcome = batch.outcome ∧ ran.world = batch.world := by
  have hcheck := check_of_fault?_eq_none host hfault world
  have hlisted : Enumeration.ofContainer transport.list (transport.files world).cwd
      request.container request.directory request.keyPrefix world =
        ⟨.ok (listedTasks (transport.files world).cwd request names),
          (listed transport request world).world, (listed transport request world).events⟩ := by
    rw [listed] at hlist
    simp only [Enumeration.ofContainer, hlist]
    rfl
  simp only [download, hcheck, Ran.andThen, hlisted]
  exact ⟨rfl, rfl⟩

/-- A download that resolves was accepted and has listed its container. -/
theorem exists_names_of_download {observer : Observer τ} {results : List TransferResult}
    (h : (download host transport request observer world).outcome = .ok results) :
    fault? request.container (concurrencyOf host request).1 request.keyPrefix = none ∧
      ∃ names, (listed transport request world).outcome = .ok names := by
  rw [download] at h
  obtain ⟨n, hcheck, hrest⟩ := Ran.exists_of_andThen h
  have hfault := fault?_eq_none_of_check hcheck
  rw [check_of_fault?_eq_none host hfault] at hrest
  obtain ⟨tasks, htasks, -⟩ := Ran.exists_of_andThen hrest
  refine ⟨hfault, ?_⟩
  rw [listed]
  rw [Enumeration.ofContainer] at htasks
  split at htasks
  · cases htasks
  · next names hnames => exact ⟨names, hnames⟩

/-- A download of an accepted request whose container is listed gives one result for each listed
task, in the order of the tasks, and it is one of the task's own job. -/
theorem exists_results_of_listed (observer : Observer τ)
    (hfault : fault? request.container (concurrencyOf host request).1 request.keyPrefix = none)
    (hlist : (listed transport request world).outcome = .ok names) :
    let cwd := (transport.files world).cwd
    let tasks := listedTasks cwd request names
    ∃ results, (download host transport request observer world).outcome = .ok results ∧
      results.map TransferResult.task = tasks ∧
      ∀ r ∈ results,
        (downloadJob transport cwd request.directory (Collisions.find cwd tasks) r.task).Yields
          r := by
  intro cwd tasks
  obtain ⟨results, hresults, hlength, hget⟩ := Dispatch.exists_results host.clock
    (listedJobs transport cwd request names) observer (listed transport request world).world
    (isFinite_of_fault?_eq_none hfault)
  refine ⟨results, (download_of_listed observer hfault hlist).1.trans hresults, ?_, fun r hr => ?_⟩
  · rw [Dispatch.map_task_of_yields hlength hget, listedJobs]
    exact Dispatch.map_task_map (fun _ => rfl) tasks
  · obtain ⟨job, hjob, hyields⟩ := Dispatch.exists_yields_of_mem hlength hget hr
    obtain ⟨task, -, rfl⟩ := List.mem_map.1 hjob
    have htask : r.task = task := hyields.task_eq
    rwa [htask]

/-! ## Admission -/

/-- A task is admitted when its name is the least one of its path, and the path lies strictly inside
the destination. -/
structure Admitted (cwd : Path) (destination : Text) (tasks : List Task) (task : Task) : Prop where
  first : Collisions.IsFirst cwd tasks task
  inside : Path.Inside (Path.resolve cwd destination) (Path.resolve cwd task.localPath)

variable {cwd : Path} {destination : Text} {tasks : List Task} {task : Task}

/-- Exactly the admitted tasks are not refused. -/
theorem refusal?_eq_none_iff (hcwd : cwd.IsNormal)
    (hsorted : tasks.Pairwise fun s t => s.objectName < t.objectName) (htask : task ∈ tasks) :
    refusal? cwd destination (Collisions.find cwd tasks) task = none ↔
      Admitted cwd destination tasks task := by
  have hfirst : (Collisions.find cwd tasks).find? task.objectName = none ↔ _ :=
    Collisions.find?_find_eq_none_iff hsorted htask
  have hinside := Path.escape?_eq_none_iff hcwd destination task.localPath
  rw [refusal?]
  cases hfind : (Collisions.find cwd tasks).find? task.objectName with
  | some owner =>
    refine iff_of_false (by simp) fun h => ?_
    rw [hfirst.2 h.first] at hfind
    cases hfind
  | none =>
    simp only [Option.map_eq_none_iff, hinside]
    exact ⟨fun h => ⟨hfirst.1 hfind, h⟩, fun h => h.inside⟩

theorem exists_message_of_refusal? {collisions : OrderedMap Text Text} {error : Thrown}
    (h : refusal? cwd destination collisions task = some error) :
    ∃ message, error = .validation message := by
  rw [refusal?] at h
  split at h
  · exact ⟨_, (Option.some.inj h).symm⟩
  · obtain ⟨escape, -, rfl⟩ := Option.map_eq_some_iff.1 h
    exact ⟨_, rfl⟩

theorem call_of_refused (transport : Transport σ) {collisions : OrderedMap Text Text}
    {error : Thrown} (h : refusal? cwd destination collisions task = some error) :
    (downloadJob transport cwd destination collisions task).call =
      fun world => (.refused error, world) := by
  simp only [downloadJob, h]

theorem call_of_not_refused (transport : Transport σ) {collisions : OrderedMap Text Text}
    (h : refusal? cwd destination collisions task = none) :
    (downloadJob transport cwd destination collisions task).call = transport.get task := by
  simp only [downloadJob, h]

theorem yields_of_refused {transport : Transport σ} {collisions : OrderedMap Text Text}
    {error : Thrown} {r : TransferResult}
    (hr : refusal? cwd destination collisions task = some error)
    (h : (downloadJob transport cwd destination collisions task).Yields r) :
    ∃ duration, r = .failure task error duration := by
  cases h with
  | throws h => rw [call_of_refused _ hr] at h; cases h
  | refused h duration => rw [call_of_refused _ hr] at h; cases h; exact ⟨duration, rfl⟩
  | waits h => rw [call_of_refused _ hr] at h; cases h

theorem getElem?_downloadJobs {transport : Transport σ} {collisions : OrderedMap Text Text}
    {n : Nat} {job : Job σ}
    (h : (tasks.map (downloadJob transport cwd destination collisions))[n]? = some job) :
    ∃ task, tasks[n]? = some task ∧
      job = downloadJob transport cwd destination collisions task := by
  rw [List.getElem?_map, Option.map_eq_some_iff] at h
  obtain ⟨task, htask, rfl⟩ := h
  exact ⟨task, htask, rfl⟩

theorem Admitted.eq {s t : Task}
    (hsorted : tasks.Pairwise fun s t => s.objectName < t.objectName)
    (hs : Admitted cwd destination tasks s) (ht : Admitted cwd destination tasks t)
    (hsame : Path.resolve cwd s.localPath = Path.resolve cwd t.localPath) : s = t :=
  hs.first.eq hsorted ht.first hsame

theorem admitted_of_succeeded {observer : Observer τ} {results : List TransferResult}
    (hcwd : (transport.files world).cwd.IsNormal)
    (hfault : fault? request.container (concurrencyOf host request).1 request.keyPrefix = none)
    (hlist : (listed transport request world).outcome = .ok names)
    (h : (download host transport request observer world).outcome = .ok results)
    {r : TransferResult} (hr : r ∈ results) (hsucceeded : r.succeeded = true) :
    Admitted (transport.files world).cwd request.directory
      (listedTasks (transport.files world).cwd request names) r.task := by
  obtain ⟨found, hfound, htasks, hyields⟩ := exists_results_of_listed observer hfault hlist
  obtain rfl : results = found := Except.ok.inj (h.symm.trans hfound)
  have htask : r.task ∈ listedTasks (transport.files world).cwd request names :=
    htasks ▸ List.mem_map_of_mem hr
  rw [← refusal?_eq_none_iff hcwd (pairwise_listedTasks _ _ _) htask]
  by_contra hrefused
  obtain ⟨error, herror⟩ := Option.ne_none_iff_exists'.1 hrefused
  obtain ⟨duration, hfailure⟩ := yields_of_refused herror (hyields r hr)
  rw [hfailure] at hsucceeded
  cases hsucceeded

end Transfer

end BulkTransfer
