import BulkTransfer.Proofs.Files.Straight
import BulkTransfer.Proofs.Transfer.Operations

/-!
# What a download depends on

The objects of a container may stand in each other's way on disk: where the file of one is to be
made, the directory of another one may be needed.  Then the schedule decides which of them succeeds.
Among files without links and objects that keep apart (`KeepApart`), each task of a download ends as
if it were the only one (`Decided`), so that neither the results nor the regular files depend on the
number of workers (`download_deterministic`).
-/

namespace BulkTransfer

namespace Transfer

variable {before now next : Site} {results : List TransferResult} {destination : Text}
  {tasks : List Task}

/-! ## Objects that keep apart -/

/-- A task that neither validation nor an injected failure keeps from writing. -/
structure Tried (site : Site) (destination : Text) (tasks : List Task) (task : Task) : Prop where
  mem : task ∈ tasks
  admitted : Admitted site.files.cwd destination tasks task
  sound : site.store.failureOf task.objectName = none

/-- A task is to make a file where nothing stands and another one needs a directory. -/
structure Contends (site : Site) (s t : Task) : Prop where
  above : placeOf site s <+: placeOf site t
  ne : placeOf site s ≠ placeOf site t
  free : site.files.entry? (placeOf site s) = none

/-- The tasks that write do not contend, and those that write to one place write the same. -/
structure KeepApart (site : Site) (destination : Text) (tasks : List Task) : Prop where
  ways : ∀ s t, Tried site destination tasks s → Tried site destination tasks t →
    ¬ Contends site s t
  objects : ∀ s t, Tried site destination tasks s → Tried site destination tasks t →
    placeOf site s = placeOf site t → site.objectOf s = site.objectOf t

theorem Tried.above {site : Site} {task : Task} (h : Tried site destination tasks task)
    {directory : Path} {name : Text} (hplace : placeOf site task = directory ++ [name])
    (path : Path) (hpath : path <+: directory) :
    ∃ t, Tried site destination tasks t ∧ path <+: placeOf site t ∧ path ≠ placeOf site t := by
  refine ⟨task, h, hplace ▸ hpath.trans (List.prefix_append _ _), fun e => ?_⟩
  rw [e, hplace] at hpath
  exact Files.not_append_isPrefix_self _ _ hpath

/-! ## Every task ends as if it were the only one -/

/-- How a task of a download ends when no other one does any work. -/
def aloneOutcome (site : Site) (destination : Text) (tasks : List Task) (task : Task) :
    Except Thrown Unit :=
  Site.outcomeOf .download (batchRefusal site.files.cwd destination tasks) site task

/-- The results so far are those of tasks that are alone.  Directories were made on the ways of
tasks only, and at the places of successful tasks stand their objects. -/
structure Decided (destination : Text) (tasks : List Task) (before now : Site)
    (results : List TransferResult) : Prop where
  containers : now.store.containers = before.store.containers
  failures : now.store.failures = before.store.failures
  alone : ∀ r ∈ results, ∃ duration,
    r = .ofOutcome r.task (aloneOutcome before destination tasks r.task) duration
  builds : Files.Builds
    (fun path => ∃ t, Tried before destination tasks t ∧ path <+: placeOf before t ∧
      path ≠ placeOf before t)
    (fun path => ∃ r ∈ results, r.succeeded = true ∧ Tried before destination tasks r.task ∧
      placeOf before r.task = path)
    before.files now.files
  holds : ∀ r ∈ results, r.succeeded = true → Tried before destination tasks r.task ∧
    ∃ content, before.objectOf r.task = some content ∧
      (now.files.entry? (placeOf before r.task) = some .special ∨
        now.files.entry? (placeOf before r.task) = some (.file content))

namespace Decided

theorem congr (h : Decided destination tasks before now results)
    (hsame : Site.SameContent now next) : Decided destination tasks before next results where
  containers := hsame.containers.trans h.containers
  failures := hsame.failures.trans h.failures
  alone := h.alone
  builds := hsame.files ▸ h.builds
  holds := hsame.files ▸ h.holds

theorem refl (hsame : Site.SameContent before now) : Decided destination tasks before now [] where
  containers := hsame.containers
  failures := hsame.failures
  alone := fun _ hr => absurd hr List.not_mem_nil
  builds := hsame.files ▸ .refl _ _ _
  holds := fun _ hr => absurd hr List.not_mem_nil

theorem of_mem_iff {others : List TransferResult} (h : Decided destination tasks before now results)
    (hmem : ∀ r, r ∈ others ↔ r ∈ results) : Decided destination tasks before now others where
  containers := h.containers
  failures := h.failures
  alone := fun r hr => h.alone r ((hmem r).1 hr)
  builds := h.builds.mono (fun _ => id) fun _ ⟨r, hr, hrest⟩ => ⟨r, (hmem r).2 hr, hrest⟩
  holds := fun r hr => h.holds r ((hmem r).1 hr)

/-- One more result of a task that ended as it would alone. -/
theorem add (h : Decided destination tasks before now results)
    (hapart : KeepApart before destination tasks) {r : TransferResult}
    (hcontainers : next.store.containers = now.store.containers)
    (hfailures : next.store.failures = now.store.failures)
    (halone : ∃ duration,
      r = .ofOutcome r.task (aloneOutcome before destination tasks r.task) duration)
    (hbuilds : Files.Builds
      (fun path => ∃ t, Tried before destination tasks t ∧ path <+: placeOf before t ∧
        path ≠ placeOf before t)
      (fun path => r.succeeded = true ∧ placeOf before r.task = path) now.files next.files)
    (hholds : r.succeeded = true → Tried before destination tasks r.task ∧
      ∃ content, before.objectOf r.task = some content ∧
        (next.files.entry? (placeOf before r.task) = some .special ∨
          next.files.entry? (placeOf before r.task) = some (.file content))) :
    Decided destination tasks before next (results ++ [r]) where
  containers := hcontainers.trans h.containers
  failures := hfailures.trans h.failures
  alone := List.forall_mem_append.2 ⟨h.alone, List.forall_mem_singleton.2 halone⟩
  builds := by
    refine .trans (h.builds.mono (fun _ => id) ?_) (hbuilds.mono (fun _ => id) ?_)
    · rintro path ⟨s, hs, hss, htried, hplace⟩
      exact ⟨s, List.mem_append_left _ hs, hss, htried, hplace⟩
    · rintro path ⟨hsucceeded, hplace⟩
      exact ⟨r, by simp, hsucceeded, (hholds hsucceeded).1, hplace⟩
  holds := by
    refine List.forall_mem_append.2 ⟨fun s hs hss => ?_, List.forall_mem_singleton.2 hholds⟩
    obtain ⟨htried, content, hobject, hentry⟩ := h.holds s hs hss
    refine ⟨htried, content, hobject, ?_⟩
    by_cases hover : r.succeeded = true ∧ placeOf before r.task = placeOf before s.task
    · obtain ⟨hsucceeded, hplace⟩ := hover
      obtain ⟨htried', content', hobject', hentry'⟩ := hholds hsucceeded
      rw [← hapart.objects _ _ htried' htried hplace, hobject'] at hobject
      obtain rfl := Option.some.inj hobject
      rwa [← hplace]
    · exact hentry.imp hbuilds.special_iff.2 (hbuilds.file_iff hover content).2

/-- One more failure that has changed nothing. -/
theorem fail (h : Decided destination tasks before now results)
    (hapart : KeepApart before destination tasks) {task : Task} {error : Thrown}
    (halone : aloneOutcome before destination tasks task = .error error) (duration : Time) :
    Decided destination tasks before now (results ++ [.failure task error duration]) :=
  h.add hapart rfl rfl ⟨duration, by rw [TransferResult.failure, halone]; rfl⟩ (.refl _ _ _)
    fun e => by cases e

end Decided

/-- A write fares as it would alone, and changes only what is its own. -/
theorem Decided.write (h : Decided destination tasks before now results)
    (hlinkless : before.files.Linkless) (hapart : KeepApart before destination tasks)
    {directory : Path} {name : Text} {task : Task}
    (htried : Tried before destination tasks task) (hp : Path.IsNormal (directory ++ [name]))
    (hpath : task.localPath = Path.text (directory ++ [name])) (content : Bytes) :
    (now.files.writeUnder task.localPath content).1 =
      (before.files.writeUnder task.localPath content).1 := by
  have hplace : placeOf before task = _ := placeOf_of_path hp hpath
  have hfree : ∀ t, Tried before destination tasks t → placeOf before t <+: placeOf before task →
      placeOf before t ≠ placeOf before task → before.files.entry? (placeOf before t) ≠ none :=
    fun t ht habove hne hnone => hapart.ways t task ht htried ⟨habove, hne, hnone⟩
  rw [hpath]
  refine Files.writeUnder_congr hp ((h.builds.linkless hlinkless).straight _ _)
    (hlinkless.straight _ _) (fun q hq hne => h.builds.blocked_iff ?_)
    (h.builds.directory_iff ?_) content content
  · rintro ⟨r, -, -, hr, rfl⟩
    refine hfree r.task hr (hplace ▸ hq.trans (List.prefix_append _ _)) fun e => ?_
    rw [e, hplace] at hq
    exact Files.not_append_isPrefix_self _ _ hq
  · rintro ⟨t, ht, habove, hne⟩ hnone
    rw [← hplace] at habove hne hnone
    exact hapart.ways task t htried ht ⟨habove, hne, hnone⟩

theorem aloneOutcome_of_refused {task : Task} {error : Thrown}
    (h : batchRefusal before.files.cwd destination tasks task = some error) :
    aloneOutcome before destination tasks task = .error error := by
  simp only [aloneOutcome, Site.outcomeOf, h]

theorem aloneOutcome_of_not_refused {task : Task}
    (h : batchRefusal before.files.cwd destination tasks task = none) :
    aloneOutcome before destination tasks task = (Site.fetchFile task before).1 := by
  simp only [aloneOutcome, Site.outcomeOf, h]
  rfl

theorem Decided.fetch (h : Decided destination tasks before now results)
    (hcwd : before.files.cwd.IsNormal) (hlinkless : before.files.Linkless)
    (htasks : AreListed tasks) (hapart : KeepApart before destination tasks) {task : Task}
    (htask : task ∈ tasks)
    (hr : batchRefusal before.files.cwd destination tasks task = none) (duration : Time) :
    Decided destination tasks before (Site.fetchFile task now).2
      (results ++ [.ofOutcome task (Site.fetchFile task now).1 duration]) := by
  have halone := aloneOutcome_of_not_refused hr
  have hsound : now.store.failureOf task.objectName = before.store.failureOf task.objectName := by
    rw [Store.failureOf, h.failures, Store.failureOf]
  have hobject : now.objectOf task = before.objectOf task := Site.objectOf_congr h.containers task
  cases hf : before.store.failureOf task.objectName with
  | some error =>
    rw [Site.fetchFile_of_failure hf] at halone
    rw [Site.fetchFile_of_failure (hsound.trans hf)]
    exact h.fail hapart halone duration
  | none =>
    cases ho : before.objectOf task with
    | none =>
      rw [Site.fetchFile_of_no_object hf ho] at halone
      rw [Site.fetchFile_of_no_object (hsound.trans hf) (hobject.trans ho)]
      exact h.fail hapart halone duration
    | some content =>
      obtain ⟨below, name, hp, hpath⟩ := exists_below_of_not_refused hcwd htasks htask hr
      have hadmitted := (refusal?_eq_none_iff hcwd htasks.sorted htask).1 hr
      have htried : Tried before destination tasks task := ⟨htask, hadmitted, hf⟩
      have hsame := h.write hlinkless hapart htried hp hpath content
      rw [Site.fetchFile_of_object hf ho, ← hsame] at halone
      rw [Site.fetchFile_of_object (hsound.trans hf) (hobject.trans ho)]
      have hplace : placeOf before task = _ := placeOf_of_path hp hpath
      cases hw : now.files.writeUnder task.localPath content with
      | mk outcome files =>
        rw [hw] at halone
        rw [hpath] at hw
        obtain ⟨hbuilds, hentry⟩ := Files.of_writeUnder_straight hp
          ((h.builds.linkless hlinkless).straight _ _) hw
        rw [← hplace] at hentry
        cases outcome with
        | error e =>
          refine h.add hapart rfl rfl ⟨duration, ?_⟩ (hbuilds.mono (htried.above hplace) ?_)
            fun e => by cases e
          · rw [TransferResult.task_ofOutcome, halone]
          · rintro path ⟨e, -⟩
            cases e
        | ok _ =>
          refine h.add hapart rfl rfl ⟨duration, ?_⟩ (hbuilds.mono (htried.above hplace) ?_)
            fun _ => ⟨htried, content, ho, hentry rfl⟩
          · rw [TransferResult.task_ofOutcome, halone]
          · rintro path ⟨-, rfl⟩
            exact ⟨rfl, hplace⟩

/-- The refusals and fetches of a download leave every task as it would be alone. -/
theorem kept_decided (hcwd : before.files.cwd.IsNormal) (hlinkless : before.files.Linkless)
    (htasks : AreListed tasks) (hapart : KeepApart before destination tasks) :
    Site.Kept .download (batchRefusal before.files.cwd destination tasks) tasks
      (Decided destination tasks before) where
  congr := fun hsame h => h.congr hsame
  refused := fun _ hr h duration => h.fail hapart (aloneOutcome_of_refused hr) duration
  done := fun htask hr h duration => h.fetch hcwd hlinkless htasks hapart htask hr duration

/-! ## Results and files -/

theorem Decided.succeeded_iff (h : Decided destination tasks before now results)
    {r : TransferResult} (hr : r ∈ results) :
    r.succeeded = true ↔ aloneOutcome before destination tasks r.task = .ok () := by
  obtain ⟨duration, heq⟩ := h.alone r hr
  rw [← succeeded_ofOutcome, ← heq]

/-- What the regular files are once all tasks have ended: where a task alone succeeds they hold its
object, and elsewhere they are as before. -/
theorem Decided.file_iff (h : Decided destination tasks before now results)
    (htasks : ∀ t, t ∈ tasks ↔ ∃ r ∈ results, r.task = t) (path : Path) (content : Bytes) :
    now.files.entry? path = some (.file content) ↔
      (∃ t ∈ tasks, aloneOutcome before destination tasks t = .ok () ∧ placeOf before t = path ∧
        before.files.entry? path ≠ some .special ∧ before.objectOf t = some content) ∨
      (∀ t ∈ tasks, aloneOutcome before destination tasks t = .ok () → placeOf before t ≠ path) ∧
        before.files.entry? path = some (.file content) := by
  have haway : (∀ t ∈ tasks, aloneOutcome before destination tasks t = .ok () →
      placeOf before t ≠ path) →
      (now.files.entry? path = some (.file content) ↔
        before.files.entry? path = some (.file content)) := by
    refine fun haway => h.builds.file_iff ?_ content
    rintro ⟨r, hr, hsucceeded, -, hplace⟩
    exact haway r.task ((htasks _).2 ⟨r, hr, rfl⟩) ((h.succeeded_iff hr).1 hsucceeded) hplace
  constructor
  · intro hafter
    by_cases hfree : ∀ t ∈ tasks, aloneOutcome before destination tasks t = .ok () →
        placeOf before t ≠ path
    · exact .inr ⟨hfree, (haway hfree).1 hafter⟩
    · simp only [not_forall, not_not] at hfree
      obtain ⟨t, ht, halone, hplace⟩ := hfree
      obtain ⟨r, hr, rfl⟩ := (htasks t).1 ht
      obtain ⟨-, object, hobject, hentry⟩ := h.holds r hr ((h.succeeded_iff hr).2 halone)
      rw [hplace, hafter] at hentry
      refine .inl ⟨r.task, ht, halone, hplace, fun hspecial => ?_, ?_⟩
      · rw [h.builds.special_iff.2 hspecial] at hafter
        cases hafter
      · rcases hentry with e | e
        · cases e
        · cases e
          exact hobject
  · rintro (⟨t, ht, halone, hplace, hspecial, hobject⟩ | ⟨hfree, hbefore⟩)
    · obtain ⟨r, hr, rfl⟩ := (htasks t).1 ht
      obtain ⟨-, object, hobject', hentry⟩ := h.holds r hr ((h.succeeded_iff hr).2 halone)
      rw [hobject] at hobject'
      obtain rfl := Option.some.inj hobject'
      rw [hplace] at hentry
      exact hentry.resolve_left fun e => hspecial (h.builds.special_iff.1 e)
    · exact (haway hfree).2 hbefore

/-- Once all tasks have ended, the results but for their durations are those of tasks that are
alone. -/
theorem Decided.outcomes_eq (h : Decided destination tasks before now results) :
    outcomes results = outcomes ((results.map TransferResult.task).map fun t =>
      .ofOutcome t (aloneOutcome before destination tasks t) 0) :=
  outcomes_of_alone h.alone

variable {τ υ : Type}

/-- A download of an accepted request whose container is listed leaves every task as it would be
alone, when the listed tasks keep apart. -/
theorem decided_of_listed {host : Host} {request : Request} {site : Site} {names : List Text}
    (observer : Observer τ) (hcwd : site.files.cwd.IsNormal) (hlinkless : site.files.Linkless)
    (hfault : fault? request.container (concurrencyOf host request).1 request.keyPrefix = none)
    (hlist : (listed Site.transport request site).outcome = .ok names)
    (hapart : KeepApart site request.directory (listedTasks site.files.cwd request names)) :
    let ran := download host Site.transport request observer site
    let tasks := listedTasks site.files.cwd request names
    ran.outcome.map outcomes = .ok (outcomes (tasks.map fun t =>
        .ofOutcome t (aloneOutcome site request.directory tasks t) 0)) ∧
      ∃ done, (∀ t, t ∈ tasks ↔ ∃ r ∈ done, r.task = t) ∧
        Decided request.directory tasks site ran.world done := by
  intro ran tasks
  obtain ⟨results, done, hout, htasks, hmem, hdecided⟩ := download_kept observer hfault hlist
    (kept_decided hcwd hlinkless (areListed_listedTasks hcwd request names) hapart)
    (.refl ⟨rfl, rfl, rfl, rfl⟩)
  have hresults : Decided request.directory tasks site ran.world results := hdecided.of_mem_iff hmem
  refine ⟨?_, results, fun t => ?_, hresults⟩
  · rw [hout, Except.map, hresults.outcomes_eq, htasks]
  · rw [← List.mem_map, htasks]

/-- Two downloads with finite concurrencies from the same site, among files without links and with
tasks that keep apart, give the same results but for their durations, or throw the same, and leave
the same regular files. -/
theorem download_deterministic (host host' : Host) (request : Request)
    (concurrency : Option Number) (observer : Observer τ) (observer' : Observer υ) (site : Site)
    (hcwd : site.files.cwd.IsNormal) (hlinkless : site.files.Linkless)
    (hfinite : (concurrencyOf host request).1.isFinite = true)
    (hfinite' : (concurrencyOf host' { request with concurrency }).1.isFinite = true)
    (hapart : ∀ names, (listed Site.transport request site).outcome = .ok names →
      KeepApart site request.directory (listedTasks site.files.cwd request names)) :
    let ran := download host Site.transport request observer site
    let ran' := download host' Site.transport { request with concurrency } observer' site
    ran.outcome.map outcomes = ran'.outcome.map outcomes ∧
      ∀ path content, ran.world.files.entry? path = some (.file content) ↔
        ran'.world.files.entry? path = some (.file content) := by
  intro ran ran'
  let other : Request := { request with concurrency }
  have hsame : fault? other.container (concurrencyOf host' other).1 other.keyPrefix =
      fault? request.container (concurrencyOf host request).1 request.keyPrefix :=
    fault?_congr hfinite' hfinite _ _
  cases hf : fault? request.container (concurrencyOf host request).1 request.keyPrefix with
  | some fault =>
    obtain ⟨hout, hkept⟩ := download_of_fault observer hf
    obtain ⟨hout', hkept'⟩ := download_of_fault observer' (hsame.trans hf)
    exact ⟨by rw [hout, hout'], fun path content => by rw [hkept.files, hkept'.files]⟩
  | none =>
    cases hl : (listed Site.transport request site).outcome with
    | error error =>
      have hl' : (listed Site.transport other site).outcome = .error error := hl
      obtain ⟨hout, hkept⟩ := download_of_unlisted observer hf hl
      obtain ⟨hout', hkept'⟩ := download_of_unlisted observer' (hsame.trans hf) hl'
      exact ⟨hout ▸ hout' ▸ rfl, fun path content => by rw [hkept.files, hkept'.files]⟩
    | ok names =>
      have hl' : (listed Site.transport other site).outcome = .ok names := hl
      obtain ⟨hout, done, htasks, hdecided⟩ :=
        decided_of_listed observer hcwd hlinkless hf hl (hapart names hl)
      obtain ⟨hout', done', htasks', hdecided'⟩ :=
        decided_of_listed observer' hcwd hlinkless (hsame.trans hf) hl' (hapart names hl)
      exact ⟨hout.trans hout'.symm, fun path content =>
        (hdecided.file_iff htasks path content).trans
          (hdecided'.file_iff htasks' path content).symm⟩

theorem keepApart_of_places {site : Site}
    (h : ∀ s ∈ tasks, ∀ t ∈ tasks, placeOf site s <+: placeOf site t → s = t) :
    KeepApart site destination tasks where
  ways := fun s t hs ht hc => hc.ne (congrArg (placeOf site) (h s hs.mem t ht.mem hc.above))
  objects := fun s t hs ht hplace => by rw [h s hs.mem t ht.mem (hplace ▸ List.prefix_refl _)]

/-- A site of two objects and no files but the working directory. -/
def siteOfTwo (first second : Text) : Site :=
  ⟨⟨.ofList [("c", .ofList [(first, [1]), (second, [2])])], .empty, none, none, 1,
    .ofList [(first, 2)], [], 0, 0⟩, ⟨["work"], .ofList [(["work"], .directory)]⟩⟩

def fromTwo (concurrency : Option Number) : Request := ⟨"c", "/dst", concurrency, none⟩

theorem linkless_siteOfTwo (first second : Text) : (siteOfTwo first second).files.Linkless :=
  Files.linkless_of_entries (List.forall_mem_singleton.2 fun _ e => by cases e)

/-- Two objects of which neither is in the other's way come out the same with one worker and with
two. -/
theorem download_deterministic_two :
    (siteOfTwo "a" "b/c").files.cwd.IsNormal ∧ (siteOfTwo "a" "b/c").files.Linkless ∧
      let ran := fun n => download ⟨2, [], .exact⟩ Site.transport (fromTwo (some (.finite n)))
        .silent (siteOfTwo "a" "b/c")
      (ran 1).outcome.map outcomes = (ran 2).outcome.map outcomes ∧
        ∀ path content, (ran 1).world.files.entry? path = some (.file content) ↔
          (ran 2).world.files.entry? path = some (.file content) := by
  have hcwd : (siteOfTwo "a" "b/c").files.cwd.IsNormal := by decide +kernel
  refine ⟨hcwd, linkless_siteOfTwo _ _, download_deterministic ⟨2, [], .exact⟩ ⟨2, [], .exact⟩
    (fromTwo (some (.finite 1))) (some (.finite 2)) .silent .silent _ hcwd (linkless_siteOfTwo _ _)
    rfl rfl fun names hlist => ?_⟩
  have hnames : (listed Site.transport (fromTwo (some (.finite 1)))
      (siteOfTwo "a" "b/c")).outcome = .ok (["a", "b/c"] : List Text) := rfl
  obtain rfl : names = (["a", "b/c"] : List Text) := Except.ok.inj (hlist.symm.trans hnames)
  have htasks : listedTasks ["work"] (fromTwo (some (.finite 1))) ["a", "b/c"] =
      [⟨"c", "a", Path.text ["dst", "a"], .download⟩,
        ⟨"c", "b/c", Path.text ["dst", "b", "c"], .download⟩] :=
    List.mergeSort_of_pairwise (by decide +kernel)
  have hfiles : (siteOfTwo "a" "b/c").files.cwd = (["work"] : Path) := rfl
  rw [hfiles, htasks]
  exact keepApart_of_places (by decide +kernel)

/-- Where the file of one object is in the way of another one's directory, the number of workers
decides which of them succeeds. -/
theorem download_contending :
    let ran := fun n => download ⟨2, [], .exact⟩ Site.transport (fromTwo (some (.finite n)))
      .silent (siteOfTwo "a" "a/b")
    (ran 1).outcome.toOption.map (List.map TransferResult.succeeded) = some [true, false] ∧
      (ran 2).outcome.toOption.map (List.map TransferResult.succeeded) = some [false, true] := by
  intro ran
  let tasks : List Task := [⟨"c", "a", Path.text ["dst", "a"], .download⟩,
    ⟨"c", "a/b", Path.text ["dst", "a", "b"], .download⟩]
  have htasks : listedTasks ["work"] (fromTwo none) ["a", "a/b"] = tasks :=
    List.mergeSort_of_pairwise (by decide +kernel)
  have hout : ∀ n, (ran n).outcome = (Dispatch.run .exact
      (tasks.map (downloadJob Site.transport ["work"] "/dst" (Collisions.find ["work"] tasks)))
      (.finite n) .silent
      (listed Site.transport (fromTwo none) (siteOfTwo "a" "a/b")).world).outcome := by
    intro n
    have hlist : (listed Site.transport (fromTwo (some (.finite n)))
        (siteOfTwo "a" "a/b")).outcome = .ok (["a", "a/b"] : List Text) := rfl
    have hbatch : (ran n).outcome = (Dispatch.run .exact
        (listedJobs Site.transport ["work"] (fromTwo none) ["a", "a/b"]) (.finite n) .silent
        (listed Site.transport (fromTwo none) (siteOfTwo "a" "a/b")).world).outcome :=
      (download_of_listed .silent rfl hlist).1
    rw [hbatch, listedJobs, htasks]
    rfl
  rw [hout, hout]
  decide +kernel

end Transfer

end BulkTransfer
