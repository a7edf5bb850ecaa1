import BulkTransfer.Proofs.Transfer.Noting
import BulkTransfer.Store.Site

/-!
# Which objects are fetched

A download calls the storage once for each admitted task, in the order of object names, and for no
other one (`calls_listedJobs`).  The result of an admitted task is how its own call ended, and every
other task fails with a validation error (`keeps_fetched`).  `download_fetches` says both of a whole
download.
-/

namespace BulkTransfer

namespace Transfer

variable {σ τ : Type} {transport : Transport σ} {cwd : Path} {destination : Text}
  {collisions : OrderedMap Text Text} {tasks : List Task}

/-! ## Calls -/

def callsOf (cwd : Path) (destination : Text) (collisions : OrderedMap Text Text) (task : Task) :
    List (Direction × Task) :=
  if (refusal? cwd destination collisions task).isNone then [(.download, task)] else []

/-- The jobs of a download note the calls of the tasks that are not refused. -/
theorem logs_downloadJobs :
    Pool.Logs (tasks.map (downloadJob transport.noting cwd destination collisions))
      (fun w => calls w.2) (fun job => callsOf cwd destination collisions job.task) where
  call := fun job hjob w => by
    obtain ⟨task, -, rfl⟩ := List.mem_map.1 hjob
    have htask : (downloadJob transport.noting cwd destination collisions task).task = task := rfl
    rw [htask, callsOf]
    cases hr : refusal? cwd destination collisions task with
    | some error =>
      rw [call_of_refused _ hr]
      exact (List.append_nil _).symm
    | none =>
      rw [call_of_not_refused _ hr]
      exact calls_noting .download transport.get task w
  finish := fun job hjob w delay finish hwaits w' => by
    obtain ⟨task, -, rfl⟩ := List.mem_map.1 hjob
    cases hr : refusal? cwd destination collisions task with
    | some error =>
      rw [call_of_refused _ hr] at hwaits
      cases hwaits
    | none =>
      rw [call_of_not_refused _ hr] at hwaits
      obtain ⟨plain, rfl⟩ := exists_notingFinish_of_waits hwaits
      exact calls_notingFinish .download task w' plain

def accepted (cwd : Path) (destination : Text) (collisions : OrderedMap Text Text)
    (tasks : List Task) : List Task :=
  tasks.filter fun task => (refusal? cwd destination collisions task).isNone

theorem flatMap_callsOf :
    (tasks.map (downloadJob transport cwd destination collisions)).flatMap
        (fun job => callsOf cwd destination collisions job.task) =
      (accepted cwd destination collisions tasks).map (Prod.mk .download) := by
  induction tasks with
  | nil => rfl
  | cons task rest ih =>
    have htask : (downloadJob transport cwd destination collisions task).task = task := rfl
    rw [List.map_cons, List.flatMap_cons, ih, htask, callsOf, accepted, accepted, List.filter_cons]
    split <;> rfl

/-! ## Results -/

/-- The result of a task is how its noted call ended, or its refusal. -/
def Fetched (cwd : Path) (destination : Text) (collisions : OrderedMap Text Text)
    (tasks : List Task) (notes : List Note) (i : Nat) (r : TransferResult) : Prop :=
  ∃ task duration, tasks[i]? = some task ∧
    match refusal? cwd destination collisions task with
    | some error => r = .failure task error duration
    | none => ∃ outcome,
        .ended .download task outcome ∈ notes ∧ r = .ofOutcome task outcome duration

theorem Fetched.mono {notes more : List Note} {i : Nat} {r : TransferResult}
    (h : Fetched cwd destination collisions tasks notes i r) (hsubset : notes ⊆ more) :
    Fetched cwd destination collisions tasks more i r := by
  obtain ⟨task, duration, htask, hr⟩ := h
  refine ⟨task, duration, htask, ?_⟩
  split
  · next error herror => rwa [herror] at hr
  · next hnone =>
    rw [hnone] at hr
    obtain ⟨outcome, hended, rfl⟩ := hr
    exact ⟨outcome, hsubset hended, rfl⟩

/-- The operation of a task that is not refused, as it waits. -/
def Fetching (cwd : Path) (destination : Text) (collisions : OrderedMap Text Text)
    (tasks : List Task) (flight : Flight (σ × List Note)) : Prop :=
  tasks[flight.index]? = some flight.task ∧
    refusal? cwd destination collisions flight.task = none ∧
    ∃ plain : σ → Except Thrown Unit × σ, flight.finish = notingFinish .download flight.task plain

theorem subset_downloadJob (task : Task) (w : σ × List Note) :
    w.2 ⊆ ((downloadJob transport.noting cwd destination collisions task).call w).2.2 := by
  cases hr : refusal? cwd destination collisions task with
  | some error =>
    rw [call_of_refused _ hr]
    exact List.Subset.refl _
  | none =>
    rw [call_of_not_refused _ hr]
    exact subset_noting .download transport.get task w

/-- What an operation throws when it is called, or is refused with, is its task's result. -/
theorem fetched_of_fails {n : Nat} {task : Task} {w : σ × List Note} {error : Thrown}
    (htask : tasks[n]? = some task)
    (h : ((downloadJob transport.noting cwd destination collisions task).call w).1 = .throws error ∨
      ((downloadJob transport.noting cwd destination collisions task).call w).1 = .refused error)
    (duration : Time) :
    Fetched cwd destination collisions tasks
      ((downloadJob transport.noting cwd destination collisions task).call w).2.2 n
      (.failure task error duration) := by
  refine ⟨task, duration, htask, ?_⟩
  cases hr : refusal? cwd destination collisions task with
  | some refusal =>
    rw [call_of_refused _ hr] at h
    rcases h with h | h
    · cases h
    · cases h
      rfl
  | none =>
    rw [call_of_not_refused _ hr] at h ⊢
    exact ⟨.error error, ended_mem_noting h, rfl⟩

theorem keeps_fetched (clock : Clock) :
    Pool.Keeps clock (tasks.map (downloadJob transport.noting cwd destination collisions))
      (fun w finished =>
        ∀ x ∈ finished, Fetched cwd destination collisions tasks w.2 x.1 x.2)
      (fun w => Fetched cwd destination collisions tasks w.2)
      (fun _ => Fetching cwd destination collisions tasks) where
  call := fun hjob h x hx => by
    obtain ⟨task, -, rfl⟩ := getElem?_downloadJobs hjob
    exact (h x hx).mono (subset_downloadJob task _)
  throws := fun hjob hthrows => by
    obtain ⟨task, htask, rfl⟩ := getElem?_downloadJobs hjob
    exact fetched_of_fails htask (.inl hthrows) 0
  refused := fun hjob hrefused duration => by
    obtain ⟨task, htask, rfl⟩ := getElem?_downloadJobs hjob
    exact fetched_of_fails htask (.inr hrefused) duration
  waits := fun hjob hwaits now => by
    obtain ⟨task, htask, rfl⟩ := getElem?_downloadJobs hjob
    cases hr : refusal? cwd destination collisions task with
    | some error =>
      rw [call_of_refused _ hr] at hwaits
      cases hwaits
    | none =>
      rw [call_of_not_refused _ hr] at hwaits
      exact ⟨htask, hr, exists_notingFinish_of_waits hwaits⟩
  ends_call := fun hjob h => by
    obtain ⟨task, -, rfl⟩ := getElem?_downloadJobs hjob
    exact h.mono (subset_downloadJob task _)
  ends_land := fun hflies h => by
    obtain ⟨-, -, plain, hfinish⟩ := hflies
    rw [hfinish]
    exact h.mono (subset_notingFinish _ _ _ plain)
  conclude := fun hends h => List.forall_mem_append.2 ⟨h, List.forall_mem_singleton.2 hends⟩
  land := fun {due w finished flight} hflies h => by
    obtain ⟨htask, hr, plain, hfinish⟩ := hflies
    rw [hfinish]
    refine List.forall_mem_append.2 ⟨fun x hx => ?_, List.forall_mem_singleton.2 ?_⟩
    · exact (h x hx).mono (subset_notingFinish _ _ _ plain)
    · refine ⟨flight.task, clock.between flight.began due, htask, ?_⟩
      rw [hr]
      exact ⟨_, ended_mem_notingFinish _ _ _ plain, rfl⟩

/-! ## Whole downloads -/

/-- The tasks that are not refused, among tasks in the order of their names, are the admitted
ones. -/
theorem mem_accepted_iff (hcwd : cwd.IsNormal)
    (hsorted : tasks.Pairwise fun s t => s.objectName < t.objectName) (task : Task) :
    task ∈ accepted cwd destination (Collisions.find cwd tasks) tasks ↔
      Admitted cwd destination tasks task := by
  rw [accepted, List.mem_filter, Option.isNone_iff_eq_none]
  constructor
  · exact fun h => (refusal?_eq_none_iff hcwd hsorted h.1).1 h.2
  · exact fun h => ⟨h.first.1, (refusal?_eq_none_iff hcwd hsorted h.first.1).2 h⟩

theorem nodup_accepted_paths (hcwd : cwd.IsNormal)
    (hsorted : tasks.Pairwise fun s t => s.objectName < t.objectName) :
    ((accepted cwd destination (Collisions.find cwd tasks) tasks).map fun task =>
      Path.resolve cwd task.localPath).Nodup := by
  have hnodup : tasks.Nodup := (Collisions.nodup_objectNames hsorted).of_map _
  refine (hnodup.sublist List.filter_sublist).map_on fun s hs t ht hsame => ?_
  exact ((mem_accepted_iff hcwd hsorted s).1 hs).eq hsorted ((mem_accepted_iff hcwd hsorted t).1 ht)
    hsame

/-- The result of an admitted task is how its call ended, and any other task fails with a validation
error. -/
theorem Fetched.cases_admitted (hcwd : cwd.IsNormal)
    (hsorted : tasks.Pairwise fun s t => s.objectName < t.objectName) {notes : List Note} {i : Nat}
    {task : Task} {r : TransferResult}
    (h : Fetched cwd destination (Collisions.find cwd tasks) tasks notes i r)
    (htask : tasks[i]? = some task) :
    ∃ duration,
      (Admitted cwd destination tasks task → ∃ outcome,
        .ended .download task outcome ∈ notes ∧ r = .ofOutcome task outcome duration) ∧
      (¬ Admitted cwd destination tasks task → ∃ message,
        r = .failure task (.validation message) duration) := by
  obtain ⟨found, duration, hfound, hown⟩ := h
  obtain rfl : task = found := Option.some.inj (htask.symm.trans hfound)
  rw [← refusal?_eq_none_iff hcwd hsorted (List.mem_of_getElem? htask)]
  refine ⟨duration, fun hr => ?_, fun hr => ?_⟩
  · rwa [hr] at hown
  · obtain ⟨error, herror⟩ := Option.ne_none_iff_exists'.1 hr
    obtain ⟨message, rfl⟩ := exists_message_of_refusal? herror
    rw [herror] at hown
    exact ⟨message, hown⟩

/-- A download of an accepted request whose container is listed fetches exactly the admitted tasks:
those whose name is the least one of their path, the path lying strictly inside the destination.  It
calls the storage for each of them once, in the order of the tasks, so that no path is used twice;
the result of each is how its own call ended, and every other task fails with a validation error.
The notes that tell so change nothing else. -/
theorem download_fetches (host : Host) (transport : Transport σ) (request : Request)
    (observer : Observer τ) (world : σ) (names : List Text)
    (hcwd : (transport.files world).cwd.IsNormal)
    (hfault : fault? request.container (concurrencyOf host request).1 request.keyPrefix = none)
    (hlist : (listed transport request world).outcome = .ok names) :
    let cwd := (transport.files world).cwd
    let tasks := listedTasks cwd request names
    let plain := download host transport request observer world
    let ran := download host transport.noting request observer (world, [])
    (ran.outcome = plain.outcome ∧ ran.world.1 = plain.world ∧ ran.events = plain.events) ∧
    ∃ (results : List TransferResult) (fetched : List Task),
      plain.outcome = .ok results ∧ results.length = tasks.length ∧
      calls ran.world.2 = fetched.map (Prod.mk .download) ∧ fetched.Sublist tasks ∧
      (∀ task, task ∈ fetched ↔ Admitted cwd request.directory tasks task) ∧
      (fetched.map fun task => Path.resolve cwd task.localPath).Nodup ∧
      ∀ (i : Nat) (task : Task), tasks[i]? = some task → ∃ r duration, results[i]? = some r ∧
        (Admitted cwd request.directory tasks task → ∃ outcome,
          .ended .download task outcome ∈ ran.world.2 ∧ r = .ofOutcome task outcome duration) ∧
        (¬ Admitted cwd request.directory tasks task → ∃ message,
          r = .failure task (.validation message) duration) := by
  intro cwd tasks plain ran
  have hsame := download_noting host transport request observer world []
  have hlist' : (listed transport.noting request (world, [])).outcome = .ok names := hlist
  obtain ⟨hout, hworld⟩ := download_of_listed observer hfault hlist'
  have hfinite := isFinite_of_fault?_eq_none hfault
  have hsorted : tasks.Pairwise fun s t => s.objectName < t.objectName :=
    pairwise_listedTasks cwd request names
  have hkeeps : Pool.Keeps host.clock (listedJobs transport.noting cwd request names) _ _ _ :=
    keeps_fetched host.clock
  obtain ⟨results, finished, hresults, hlength, hget, hfetched⟩ :=
    Dispatch.exists_finished observer hkeeps
      (fun x hx => absurd hx List.not_mem_nil : ∀ x ∈ [], _) hfinite
  refine ⟨hsame, results, _, hsame.1.symm.trans (hout.trans hresults), ?_, ?_, List.filter_sublist,
    mem_accepted_iff hcwd hsorted, nodup_accepted_paths hcwd hsorted, fun i task htask => ?_⟩
  · rw [hlength, listedJobs, List.length_map]
  -- The calls, by the log of notes; then the results, by what the jobs keep.
  · have hlogs : Pool.Logs (listedJobs transport.noting cwd request names) _ _ :=
      logs_downloadJobs
    have hcalls := Dispatch.run_logs host.clock observer
      (listed transport.noting request (world, [])).world hlogs hfinite
    rw [listedJobs, flatMap_callsOf] at hcalls
    rw [hworld]
    exact hcalls
  · have hlt : i < results.length := by
      rw [hlength, listedJobs, List.length_map]
      exact (List.getElem?_eq_some_iff.1 htask).1
    have hr : results[i]? = some results[i] := List.getElem?_eq_getElem hlt
    obtain ⟨duration, hown⟩ := (hfetched _ ((hget i _).1 hr)).cases_admitted hcwd hsorted htask
    rw [hworld]
    exact ⟨_, duration, hr, hown⟩

/-- Of three objects, one outside the destination and two with one path, one is fetched. -/
theorem download_fetches_one_of_three :
    let site : Site :=
      ⟨⟨.ofList [("c", .ofList [("p/../b", [1]), ("p/a", [2]), ("p/./a", [3])])], .empty, none,
        none, 1, .empty, [], 0, 0⟩, ⟨["work"], .empty⟩⟩
    let host : Host := ⟨2, [], .binary⟩
    let request : Request := ⟨"c", "d", some (.finite 2), some "p"⟩
    let names : List Text := ["p/../b", "p/a", "p/./a"]
    (Site.transport.files site).cwd.IsNormal ∧
      fault? request.container (concurrencyOf host request).1 request.keyPrefix = none ∧
      (listed Site.transport request site).outcome = .ok names ∧
      calls (download host Site.transport.noting request .silent (site, [])).world.2 =
        [(.download, ⟨"c", "p/./a", "/work/d/a", .download⟩)] := by
  intro site host request names
  have hcwd : (Site.transport.files site).cwd.IsNormal := by decide +kernel
  have hfault : fault? request.container (concurrencyOf host request).1 request.keyPrefix =
      none := by decide +kernel
  have hlist : (listed Site.transport request site).outcome = .ok names := rfl
  refine ⟨hcwd, hfault, hlist, ?_⟩
  obtain ⟨-, _, fetched, -, -, hcalls, hsublist, hfetched, -, -⟩ :=
    download_fetches host Site.transport request .silent site names hcwd hfault hlist
  let outside : Task := ⟨"c", "p/../b", "/work/b", .download⟩
  let kept : Task := ⟨"c", "p/./a", "/work/d/a", .download⟩
  let late : Task := ⟨"c", "p/a", "/work/d/a", .download⟩
  have hsorted := pairwise_listedTasks ["work"] request names
  have htasks : listedTasks ["work"] request names = [outside, kept, late] := by
    have hperm : (listedTasks ["work"] request names).Perm [outside, kept, late] :=
      (List.mergeSort_perm _ _).trans (by decide +kernel)
    refine hperm.eq_of_pairwise (fun s t _ _ hst hts => absurd hts ?_) hsorted (by decide +kernel)
    exact List.lt_asymm hst
  rw [htasks] at hsorted
  have hsublist : fetched.Sublist [outside, kept, late] := htasks ▸ hsublist
  have hfetched : ∀ task, task ∈ fetched ↔ Admitted ["work"] "d" [outside, kept, late] task :=
    htasks ▸ hfetched
  -- Which of the tasks are admitted is what the check of the program says.
  have hadmitted : ∀ task, Admitted ["work"] "d" [outside, kept, late] task ↔
      task ∈ [kept] := by
    intro task
    have hdecided : ∀ task ∈ [outside, kept, late],
        refusal? ["work"] "d" (Collisions.find ["work"] [outside, kept, late]) task = none ↔
          task ∈ [kept] := by
      decide +kernel
    by_cases hmem : task ∈ [outside, kept, late]
    · exact (refusal?_eq_none_iff hcwd hsorted hmem).symm.trans (hdecided task hmem)
    · refine iff_of_false (fun h => hmem h.first.1) fun h => hmem ?_
      exact List.mem_cons_of_mem _ (List.mem_cons.2 (.inl (List.mem_singleton.1 h)))
  have hnodup : fetched.Nodup := hsublist.nodup (by decide +kernel)
  have hkept : fetched.Perm [kept] :=
    (List.perm_ext_iff_of_nodup hnodup (List.nodup_singleton _)).2
      fun task => (hfetched task).trans (hadmitted task)
  rw [hcalls, List.perm_singleton.1 hkept]
  rfl

end Transfer

end BulkTransfer
