import BulkTransfer.Proofs.Enumeration.Local
import BulkTransfer.Proofs.Transfer.Storing

/-!
# What an upload stores

An upload is the batch of the tasks of a directory, whose names are their own.  So at its end the
directory is uploaded (`Uploaded`, `upload_stores`): only injected failures and overlong paths keep
a file from being stored, and neither the number of workers nor the delays make a difference.
Files with overlong paths there may be (`not_upload_stores`): a directory is found over links by a
long path, which the name of the file makes longer.
-/

namespace BulkTransfer

namespace Site

/-- The site once a container is made. -/
def withContainer (s : Site) (container : Text) : Site :=
  { s with store := (s.store.log (.create container)).withContainer container }

theorem withContainer_kept (s : Site) (container : Text) :
    (s.withContainer container).store.failures = s.store.failures ∧
      (s.withContainer container).store.listingFailure = s.store.listingFailure ∧
      (s.withContainer container).store.calls = s.store.calls ++ [.create container] :=
  Store.withContainer_kept _ _

theorem hasContainer_withContainer (s : Site) (container container' : Text) :
    (s.withContainer container).store.hasContainer container' =
      (container' == container || s.store.hasContainer container') :=
  Store.hasContainer_withContainer _ _ _

theorem object?_withContainer (s : Site) (container container' name : Text) :
    (s.withContainer container).store.object? container' name = s.store.object? container' name :=
  Store.object?_withContainer _ _ _ _

end Site

namespace Transfer

variable {before now next : Site} {results : List TransferResult} {tasks : List Task}

/-! ## Uploads as batches -/

/-- Where the tasks of an upload come from and go to. -/
def sourceOf (cwd : Path) (request : Request) : Enumeration.Source :=
  ⟨request.container, Path.resolve cwd request.directory, request.keyPrefix⟩

variable {τ υ : Type} {host : Host} {request : Request} {site : Site}
  {found : List (Text × Entry)}

/-- An upload of an accepted request from a directory that can be enumerated is the batch of the
directory's tasks, once the container is made. -/
theorem upload_of_found (observer : Observer τ)
    (hfault : fault? request.container (concurrencyOf host request).1 request.keyPrefix = none)
    (hcreate : site.store.creationFailure = none)
    (hfound : Enumeration.entries site.files request.directory = .ok found) :
    let ran := upload host Site.transport request observer site
    let tasks := Enumeration.tasksOf site.files (sourceOf site.files.cwd request) found
    let batch := Dispatch.run host.clock (tasks.map (Site.job .upload fun _ => none))
      (concurrencyOf host request).1 observer (site.withContainer request.container)
    ran.outcome = batch.outcome ∧ ran.world = batch.world := by
  have hmade : Site.transport.ensureContainer request.container site =
      ⟨.ok (), site.withContainer request.container, []⟩ := by
    simp only [Site.transport, Site.create, Store.create, hcreate]
    rfl
  have hfiles : Site.transport.files (site.withContainer request.container) = site.files := rfl
  have htasks : Enumeration.ofDirectory site.files request.container request.directory
      request.keyPrefix (site.withContainer request.container) =
        ⟨.ok (Enumeration.tasksOf site.files (sourceOf site.files.cwd request) found),
          site.withContainer request.container,
          found.filterMap ((sourceOf site.files.cwd request).warning? site.files)⟩ := by
    simp only [Enumeration.ofDirectory, hfound]
    rfl
  simp only [upload, check_of_fault?_eq_none host hfault, Ran.andThen, hmade, hfiles, htasks,
    Site.uploadJob_transport]
  exact ⟨rfl, rfl⟩

/-- The calls of an upload are those of its tasks, in their order. -/
theorem logs_uploadJobs (tasks : List Task) :
    Pool.Logs (tasks.map (Site.job .upload fun _ => none)) (fun s => s.store.calls)
      (fun job => [.put job.task.objectName]) where
  call := fun job hjob w => by
    obtain ⟨task, -, rfl⟩ := List.mem_map.1 hjob
    rfl
  finish := fun job hjob w delay finish hwaits w' => by
    obtain ⟨task, -, rfl⟩ := List.mem_map.1 hjob
    obtain ⟨-, rfl⟩ := Launch.waits.inj hwaits
    have hland : Site.land .upload task w' = ((Site.storeFile task w').1,
        { (Site.storeFile task w').2 with store := (Site.storeFile task w').2.store.leave }) := rfl
    rw [hland]
    rcases hf : Site.storeFile task w' with ⟨outcome, next⟩
    cases outcome with
    | error error => rw [Site.storeFile_error hf]; rfl
    | ok _ =>
      obtain ⟨-, content, -, rfl⟩ := Site.storeFile_ok hf
      rfl

/-! ## What an upload leaves -/

/-- The files of the directory at a place are uploaded: there is one task for each, those that
succeed have stored their files, and nothing else has changed. -/
structure Uploaded (request : Request) (place : Path) (before after : Site)
    (results : List TransferResult) : Prop where
  sorted : results.Pairwise fun r s => r.task.objectName < s.task.objectName
  tasks : ∀ task, (∃ r ∈ results, r.task = task) ↔ ∃ name content,
    before.files.HoldsFile place (Path.resolve before.files.cwd request.directory) name content ∧
      task = (sourceOf before.files.cwd request).task name
  succeeded : ∀ r ∈ results, r.succeeded = true ↔
    before.store.failureOf r.task.objectName = none ∧ Files.isOverlong r.task.localPath = false
  objects : ∀ r ∈ results, r.succeeded = true → ∀ name content,
    before.files.HoldsFile place (Path.resolve before.files.cwd request.directory) name content →
      r.task = (sourceOf before.files.cwd request).task name →
        after.store.object? request.container r.task.objectName = some content
  others : ∀ container name,
    (∀ r ∈ results, r.succeeded = true →
      ¬ (container = request.container ∧ name = r.task.objectName)) →
    after.store.object? container name = before.store.object? container name
  containers : ∀ container, after.store.hasContainer container =
    (container == request.container || before.store.hasContainer container)
  files : after.files = before.files
  failures : after.store.failures = before.store.failures
  listingFailure : after.store.listingFailure = before.store.listingFailure
  calls : after.store.calls = before.store.calls ++
    .create request.container :: results.map fun r => .put r.task.objectName

theorem localPath_of_holdsFile (source : Enumeration.Source) {place : Path} {name : Text}
    {content : Bytes} (htree : site.files.Tree)
    (hfile : site.files.HoldsFile place source.directory name content) :
    (source.task name).localPath = Path.text (source.directory ++ [name]) :=
  Enumeration.pathOf_of_isName source (hfile.isFileName htree).isName

/-- A file of a directory is stored unless its object fails or its path is overlong. -/
theorem storeFile_task_eq_ok_iff {source : Enumeration.Source} {place : Path} {name : Text}
    {content : Bytes} (hplace : site.files.Found source.directory place) (htree : site.files.Tree)
    (hfile : site.files.HoldsFile place source.directory name content) :
    (Site.storeFile (source.task name) site).1 = .ok () ↔
      site.store.failureOf (source.task name).objectName = none ∧
        Files.isOverlong (source.task name).localPath = false := by
  rw [Site.storeFile_eq_ok_iff, localPath_of_holdsFile source htree hfile,
    hplace.exists_read_iff htree hfile]

theorem storeFile_withContainer (container : Text) (task : Task) :
    (Site.storeFile task (site.withContainer container)).1 = (Site.storeFile task site).1 :=
  Site.storeFile_congr (s := site) (t := site.withContainer container) rfl
    (site.withContainer_kept container).1 task

/-- When the tasks of a directory are stored, the directory is uploaded. -/
theorem Stored.uploaded {place : Path} {after : Site}
    (hplace : site.files.Found (Path.resolve site.files.cwd request.directory) place)
    (htree : site.files.Tree) (hperm : found.Perm (site.files.children place))
    (h : Stored tasks (site.withContainer request.container) after results)
    (htasks : tasks = Enumeration.tasksOf site.files (sourceOf site.files.cwd request) found)
    (hresults : results.map TransferResult.task = tasks)
    (hcalls : after.store.calls = (site.withContainer request.container).store.calls ++
      tasks.map fun t => .put t.objectName) :
    Uploaded request place site after results := by
  have hmem : ∀ task, (∃ r ∈ results, r.task = task) ↔ ∃ name content,
      site.files.HoldsFile place (Path.resolve site.files.cwd request.directory) name content ∧
        task = (sourceOf site.files.cwd request).task name := by
    intro task
    rw [← List.mem_map, hresults, htasks]
    exact Enumeration.mem_tasks_iff htree.toNamed hperm
  have hcontainer : ∀ r ∈ results, r.task.container = request.container := by
    intro r hr
    obtain ⟨name, -, -, htask⟩ := (hmem r.task).1 ⟨r, hr, rfl⟩
    rw [htask]
    rfl
  obtain ⟨hfailures, hlisting, hmade⟩ := site.withContainer_kept request.container
  exact
    { sorted := by
        have hsorted := Enumeration.pairwise_tasks
          (s := sourceOf site.files.cwd request) htree.toNamed hperm
        rwa [← htasks, ← hresults, List.pairwise_map] at hsorted
      tasks := hmem
      succeeded := fun r hr => by
        obtain ⟨name, content, hfile, htask⟩ := (hmem r.task).1 ⟨r, hr, rfl⟩
        obtain ⟨duration, halone⟩ := h.alone r hr
        rw [halone, succeeded_ofOutcome, TransferResult.task_ofOutcome, storeFile_withContainer,
          htask]
        exact storeFile_task_eq_ok_iff hplace htree hfile
      objects := fun r hr hsucceeded name content hfile htask => by
        obtain ⟨read, hread, hobject⟩ := h.holds r hr hsucceeded
        rw [htask, localPath_of_holdsFile (sourceOf site.files.cwd request) htree hfile] at hread
        have hcontent := (hplace.read_eq_ok_iff htree hfile).2
          ((hplace.exists_read_iff htree hfile).1 ⟨read, hread⟩)
        obtain rfl := Except.ok.inj (hread.symm.trans hcontent)
        rw [← hcontainer r hr]
        exact hobject
      others := fun container name haway => by
        rw [← site.object?_withContainer request.container]
        refine h.same container name fun r hr hsucceeded => ?_
        rw [hcontainer r hr]
        exact haway r hr hsucceeded
      containers := fun container => by
        rw [h.containers, Site.hasContainer_withContainer]
      files := h.files
      failures := h.failures.trans hfailures
      listingFailure := h.listingFailure.trans hlisting
      calls := by
        rw [hcalls, hmade, ← hresults, List.map_map, List.append_assoc]
        rfl }

theorem eq_of_objectName_of_found {place : Path} (htree : site.files.Tree)
    (hperm : found.Perm (site.files.children place)) {source : Enumeration.Source} {s t : Task}
    (hs : s ∈ Enumeration.tasksOf site.files source found)
    (ht : t ∈ Enumeration.tasksOf site.files source found) (h : s.objectName = t.objectName) :
    s = t :=
  List.inj_on_of_nodup_map
    (Collisions.nodup_objectNames (Enumeration.pairwise_tasks htree.toNamed hperm)) hs ht h

/-- An upload gives a result for each task of the directory, and these are stored. -/
theorem stored_of_found (observer : Observer τ) (hcwd : site.files.cwd.IsNormal)
    (htree : site.files.Tree)
    (hfault : fault? request.container (concurrencyOf host request).1 request.keyPrefix = none)
    (hcreate : site.store.creationFailure = none)
    (hfound : Enumeration.entries site.files request.directory = .ok found) :
    let ran := upload host Site.transport request observer site
    let tasks := Enumeration.tasksOf site.files (sourceOf site.files.cwd request) found
    ∃ results place, ran.outcome = .ok results ∧
      site.files.Found (Path.resolve site.files.cwd request.directory) place ∧
      site.files.locate .use (Path.text (Path.resolve site.files.cwd request.directory)) =
        .ok place ∧
      found.Perm (site.files.children place) ∧
      results.map TransferResult.task = tasks ∧
      Stored tasks (site.withContainer request.container) ran.world results ∧
      ran.world.store.calls = (site.withContainer request.container).store.calls ++
        tasks.map fun t => .put t.objectName := by
  intro ran tasks
  obtain ⟨place, hplace, hlocate, hperm⟩ := Enumeration.exists_found_of_entries hcwd hfound
  have hown : ∀ s ∈ tasks, ∀ t ∈ tasks, s.objectName = t.objectName → s = t :=
    fun s hs t ht => eq_of_objectName_of_found htree hperm hs ht
  have hthere : ∀ t ∈ tasks,
      (site.withContainer request.container).store.hasContainer t.container = true := by
    intro t ht
    obtain ⟨name, -, -, rfl⟩ := (Enumeration.mem_tasks_iff htree.toNamed hperm).1 ht
    rw [Site.hasContainer_withContainer]
    simp [Enumeration.Source.task, sourceOf]
  have hfinite := isFinite_of_fault?_eq_none hfault
  obtain ⟨hout, hworld⟩ := upload_of_found observer hfault hcreate hfound
  obtain ⟨results, done, hresults, hmap, hmem, hdone⟩ := (kept_stored hown hthere).exists_results
    (.refl tasks ⟨rfl, rfl, rfl, rfl⟩) host.clock observer hfinite
  have hcalls := Dispatch.run_logs host.clock observer (site.withContainer request.container)
    (logs_uploadJobs tasks) hfinite
  rw [← hworld, List.flatMap_map, ← List.map_eq_flatMap] at hcalls
  rw [← hworld] at hdone
  exact ⟨results, place, hout.trans hresults, hplace, hlocate, hperm, hmap, hdone.of_mem_iff hmem,
    hcalls⟩

/-- An upload gives a result for each file of the directory, which is uploaded, and each task ends
as it would alone. -/
theorem uploaded_of_found (observer : Observer τ) (hcwd : site.files.cwd.IsNormal)
    (htree : site.files.Tree)
    (hfault : fault? request.container (concurrencyOf host request).1 request.keyPrefix = none)
    (hcreate : site.store.creationFailure = none)
    (hfound : Enumeration.entries site.files request.directory = .ok found) :
    let ran := upload host Site.transport request observer site
    ∃ results place, ran.outcome = .ok results ∧
      site.files.locate .use (Path.text (Path.resolve site.files.cwd request.directory)) =
        .ok place ∧
      Uploaded request place site ran.world results ∧
      outcomes results =
        outcomes ((Enumeration.tasksOf site.files (sourceOf site.files.cwd request) found).map
          fun t => .ofOutcome t (Site.storeFile t site).1 0) := by
  intro ran
  obtain ⟨results, place, hout, hplace, hlocate, hperm, hmap, hstored, hcalls⟩ :=
    stored_of_found observer hcwd htree hfault hcreate hfound
  have halone : outcomes results = outcomes ((results.map TransferResult.task).map fun t =>
      .ofOutcome t (Site.storeFile t site).1 0) := outcomes_of_alone fun r hr => by
    rw [← storeFile_withContainer request.container]
    exact hstored.alone r hr
  rw [hmap] at halone
  exact ⟨results, place, hout, hlocate, hstored.uploaded hplace htree hperm rfl hmap hcalls, halone⟩

/-- What an upload leaves of the objects does not depend on how it went. -/
theorem Uploaded.object?_eq {place : Path} {after after' : Site} {results' : List TransferResult}
    (h : Uploaded request place before after results)
    (h' : Uploaded request place before after' results') (container name : Text) :
    after.store.object? container name = after'.store.object? container name := by
  -- Each of the two has the tasks of the other, and they succeed alike.
  have hsame : ∀ {some other : List TransferResult} {one another : Site},
      Uploaded request place before one some → Uploaded request place before another other →
        ∀ r ∈ some, r.succeeded = true → ∃ s ∈ other, s.task = r.task ∧ s.succeeded = true := by
    intro some other one another hone hanother r hr hsucceeded
    obtain ⟨s, hs, htask⟩ := (hanother.tasks r.task).2 ((hone.tasks r.task).1 ⟨r, hr, rfl⟩)
    refine ⟨s, hs, htask, ?_⟩
    rw [hanother.succeeded s hs, htask]
    exact (hone.succeeded r hr).1 hsucceeded
  by_cases haway : ∀ r ∈ results, r.succeeded = true →
      ¬ (container = request.container ∧ name = r.task.objectName)
  · rw [h.others container name haway, h'.others container name]
    intro r hr hsucceeded
    obtain ⟨s, hs, htask, hs'⟩ := hsame h' h r hr hsucceeded
    rw [← htask]
    exact haway s hs hs'
  · simp only [not_forall, not_not] at haway
    obtain ⟨r, hr, hsucceeded, rfl, rfl⟩ := haway
    obtain ⟨s, hs, htask, hs'⟩ := hsame h h' r hr hsucceeded
    obtain ⟨file, content, hfile, hof⟩ := (h.tasks r.task).1 ⟨r, hr, rfl⟩
    rw [h.objects r hr hsucceeded file content hfile hof, ← htask,
      h'.objects s hs hs' file content hfile (htask.trans hof)]

/-- An upload from a directory that can be enumerated gives one result for each regular file in it,
in increasing order of their names.  Exactly those succeed whose objects do not fail and whose local
paths are not overlong; their files are stored, and all else stays.  Neither the results, but for
their durations, nor the objects depend on the number of workers or the delays. -/
theorem upload_stores (host host' : Host) (request : Request) (concurrency : Option Number)
    (observer : Observer τ) (observer' : Observer υ) (site : Site) (delay : Time)
    (delays : OrderedMap Text Time) (hcwd : site.files.cwd.IsNormal) (htree : site.files.Tree)
    (hfault : fault? request.container (concurrencyOf host request).1 request.keyPrefix = none)
    (hfinite : (concurrencyOf host' { request with concurrency }).1.isFinite = true)
    (hcreate : site.store.creationFailure = none)
    (hfound : Enumeration.entries site.files request.directory = .ok found) :
    let ran := upload host Site.transport request observer site
    let ran' := upload host' Site.transport { request with concurrency } observer'
      { site with store := { site.store with delay, delays } }
    ∃ results place, ran.outcome = .ok results ∧
      site.files.locate .use (Path.text (Path.resolve site.files.cwd request.directory)) =
        .ok place ∧
      Uploaded request place site ran.world results ∧
      ran'.outcome.map outcomes = .ok (outcomes results) ∧
      ∀ container name, ran'.world.store.object? container name =
        ran.world.store.object? container name := by
  intro ran ran'
  let other : Request := { request with concurrency }
  let later : Site := { site with store := { site.store with delay, delays } }
  have hfault' : fault? other.container (concurrencyOf host' other).1 other.keyPrefix = none :=
    (fault?_congr hfinite (isFinite_of_fault?_eq_none hfault) _ _).trans hfault
  obtain ⟨results, place, hout, hlocate, huploaded, houtcomes⟩ :=
    uploaded_of_found observer hcwd htree hfault hcreate hfound
  obtain ⟨results', place', hout', hlocate', huploaded', houtcomes'⟩ :=
    @uploaded_of_found υ host' other later found observer' hcwd htree hfault' hcreate hfound
  obtain rfl : place = place' := Except.ok.inj (hlocate.symm.trans hlocate')
  have halone : ∀ task, (Site.storeFile task later).1 = (Site.storeFile task site).1 :=
    Site.storeFile_congr rfl rfl
  have hsame : outcomes results' = outcomes results := by
    rw [houtcomes, houtcomes']
    simp only [halone]
    rfl
  refine ⟨results, place, hout, hlocate, huploaded, ?_, fun container name => ?_⟩
  · rw [show ran'.outcome = .ok results' from hout', Except.map, hsame]
  · exact (huploaded.object?_eq { huploaded' with } container name).symm

/-- A site whose store holds one object and whose files are given. -/
def siteOfFiles (entries : List (Path × Entry)) : Site :=
  ⟨⟨.ofList [("c", .ofList [("b", [7])])], .empty, none, none, 1, .empty, [], 0, 0⟩,
    ⟨["src"], .ofList ((["src"], .directory) :: entries)⟩⟩

def fromDirectory (directory : Text) (concurrency : Option Number) : Request :=
  ⟨"c", directory, concurrency, none⟩

/-- The upload of one file beside a link that leads nowhere, with one worker and with two. -/
theorem upload_stores_one_file :
    let site := siteOfFiles [(["src", "a"], .file [1]), (["src", "l"], .link "nowhere")]
    let request := fromDirectory "/src" (some (.finite 1))
    site.files.cwd.IsNormal ∧ site.files.Tree ∧
      fault? request.container (.finite 1) request.keyPrefix = none ∧
      site.store.creationFailure = none ∧
      ∃ found, Enumeration.entries site.files request.directory = .ok found ∧
      ∃ results place,
        (upload ⟨2, [], .exact⟩ Site.transport request .silent site).outcome = .ok results ∧
        Uploaded request place site
          (upload ⟨2, [], .exact⟩ Site.transport request .silent site).world results ∧
        (upload ⟨2, [], .exact⟩ Site.transport (fromDirectory "/src" (some (.finite 2))) .silent
          { site with store := { site.store with delay := 3, delays := .empty } }).outcome.map
            outcomes = .ok (outcomes results) := by
  intro site request
  have hcwd : site.files.cwd.IsNormal := by decide +kernel
  have htree : site.files.Tree := by decide +kernel
  have hfault : fault? request.container (.finite 1) request.keyPrefix = none := by decide +kernel
  have hlocate : site.files.locateFor .stat .use
      (Path.text (Path.resolve site.files.cwd request.directory)) = .ok ["src"] := rfl
  obtain ⟨found, hfound⟩ := Enumeration.exists_entries hlocate rfl
  obtain ⟨results, place, hout, -, huploaded, hsame, -⟩ :=
    upload_stores ⟨2, [], .exact⟩ ⟨2, [], .exact⟩ request (some (.finite 2)) .silent .silent site 3
      .empty hcwd htree hfault rfl rfl hfound
  exact ⟨hcwd, htree, hfault, rfl, found, hfound, results, place, hout, huploaded, hsame⟩

/-- A path that goes sixteen times over a link with a long name. -/
def winding : Path := List.replicate 16 (List.replicate 240 110) ++ (["src"] : Path)

def longName : Text := List.replicate 250 102

def siteOfLink : Site :=
  siteOfFiles [([List.replicate 240 110], .link "/"), (["src", longName], .file [1])]

def fromWinding : Request := fromDirectory (Path.text winding) (some (.finite 1))

theorem resolve_fromWinding :
    Path.resolve siteOfLink.files.cwd fromWinding.directory = winding :=
  Path.resolve_text _ (by decide +kernel)

theorem locate_fromWinding : siteOfLink.files.locate .use
    (Path.text (Path.resolve siteOfLink.files.cwd fromWinding.directory)) = .ok ["src"] := by
  rw [resolve_fromWinding]
  decide +kernel

theorem holdsFile_fromWinding : siteOfLink.files.HoldsFile ["src"]
    (Path.resolve siteOfLink.files.cwd fromWinding.directory) longName [1] :=
  .file (by decide +kernel)

theorem isOverlong_fromWinding : Files.isOverlong
    ((sourceOf siteOfLink.files.cwd fromWinding).task longName).localPath = true := by
  have hname : Path.IsName longName := by decide +kernel
  rw [Enumeration.Source.task,
    Enumeration.pathOf_of_isName (sourceOf siteOfLink.files.cwd fromWinding) hname, sourceOf,
    resolve_fromWinding]
  decide +kernel

theorem upload_winding :
    siteOfLink.files.cwd.IsNormal ∧ siteOfLink.files.Tree ∧
      fault? fromWinding.container (.finite 1) fromWinding.keyPrefix = none ∧
      ∃ found, Enumeration.entries siteOfLink.files fromWinding.directory = .ok found ∧
      ∃ results, (upload ⟨2, [], .exact⟩ Site.transport fromWinding .silent siteOfLink).outcome =
          .ok results ∧
        ∃ r ∈ results, r.succeeded = false := by
  have hcwd : siteOfLink.files.cwd.IsNormal := by decide +kernel
  have htree : siteOfLink.files.Tree := by decide +kernel
  have hfault : fault? fromWinding.container (.finite 1) fromWinding.keyPrefix = none := by
    decide +kernel
  have hlocate : siteOfLink.files.locateFor .stat .use
      (Path.text (Path.resolve siteOfLink.files.cwd fromWinding.directory)) = .ok ["src"] := by
    rw [resolve_fromWinding]
    decide +kernel
  obtain ⟨found, hfound⟩ := Enumeration.exists_entries hlocate rfl
  obtain ⟨results, place, hout, hplace, huploaded, -⟩ :=
    @uploaded_of_found Unit ⟨2, [], .exact⟩ _ _ _ .silent hcwd htree hfault rfl hfound
  obtain rfl : (["src"] : Path) = place := Except.ok.inj (locate_fromWinding.symm.trans hplace)
  obtain ⟨r, hr, htask⟩ := (huploaded.tasks _).2 ⟨longName, [1], holdsFile_fromWinding, rfl⟩
  refine ⟨hcwd, htree, hfault, found, hfound, results, hout, r, hr, ?_⟩
  by_contra hsucceeded
  have hshort := ((huploaded.succeeded r hr).1 (by simpa using hsucceeded)).2
  rw [htask, isOverlong_fromWinding] at hshort
  cases hshort

/-- A file may fail to be stored though nothing is made to fail, where its path is overlong and that
of its directory is not. -/
theorem not_upload_stores :
    ¬ ∀ (host : Host) (request : Request) (site : Site) (found : List (Text × Entry))
        (results : List TransferResult),
      site.files.cwd.IsNormal → site.files.Tree →
      fault? request.container (concurrencyOf host request).1 request.keyPrefix = none →
      site.store.creationFailure = none →
      Enumeration.entries site.files request.directory = .ok found →
      (upload host Site.transport request .silent site).outcome = .ok results →
      ∀ r ∈ results, r.succeeded = true ↔ site.store.failureOf r.task.objectName = none := by
  intro h
  obtain ⟨hcwd, htree, hfault, found, hfound, results, hout, r, hr, hfailed⟩ := upload_winding
  have hsucceeded := (h ⟨2, [], .exact⟩ _ siteOfLink found results hcwd htree hfault rfl hfound
    hout r hr).2 (Store.failureOf_of_empty rfl _)
  rw [hfailed] at hsucceeded
  cases hsucceeded

end Transfer

end BulkTransfer
