import BulkTransfer.Proofs.Transfer.Retrying
import BulkTransfer.Proofs.Transfer.Uploading

/-!
# Repeating the failed tasks of an upload

An upload whose objects were made to fail is repeated once the failures are removed.  Storing is
told task by task: a task that succeeds leaves its object with the content of its file, and any
other object stays (`Stored.objectOf_eq`).  So the two runs together leave each object with the
content of its file, unless its failure is not worth repeating or its path is overlong
(`retry_completes`); an overlong path keeps a file from being stored also the second time
(`not_retry_completes`).
-/

namespace BulkTransfer

/-! ## Removing failures -/

namespace Store

/-- The store in which no object fails any longer. -/
def healAll (s : Store) : Store := s.failures.keys.foldl (fun s name => (s.heal name).2) s

theorem foldl_heal (s : Store) (names : List Text) :
    names.foldl (fun s name => (s.heal name).2) s =
      { s with failures := names.foldl OrderedMap.erase s.failures } := by
  induction names generalizing s with
  | nil => rfl
  | cons name rest ih =>
    rw [List.foldl_cons, ih]
    rfl

theorem pairs_foldl_erase (m : OrderedMap Text Thrown) (names : List Text) :
    (names.foldl OrderedMap.erase m).pairs =
      m.pairs.filter fun entry => !names.contains entry.1 := by
  induction names generalizing m with
  | nil => simp
  | cons name rest ih =>
    rw [List.foldl_cons, ih, OrderedMap.erase, List.filter_filter]
    refine List.filter_congr fun entry _ => ?_
    rw [List.contains_cons, Bool.not_or, Bool.and_comm, BEq.comm]

theorem healAll_eq (s : Store) : s.healAll = { s with failures := .empty } := by
  have hnone : (s.failures.keys.foldl OrderedMap.erase s.failures).pairs = [] := by
    rw [pairs_foldl_erase, List.filter_eq_nil_iff]
    intro entry hentry
    have hkey : entry.1 ∈ s.failures.keys := List.mem_map.2 ⟨entry, hentry, rfl⟩
    simpa using hkey
  rw [healAll, foldl_heal]
  exact congrArg (fun pairs => { s with failures := ⟨pairs⟩ }) hnone

end Store

namespace Site

/-- The site in which no object fails any longer. -/
def heal (s : Site) : Site := { s with store := s.store.healAll }

theorem heal_eq (s : Site) : s.heal = { s with store := { s.store with failures := .empty } } := by
  rw [heal, Store.healAll_eq]

theorem failureOf_heal (s : Site) (name : Text) : s.heal.store.failureOf name = none := by
  rw [heal_eq]
  exact Store.failureOf_of_empty rfl name

theorem object?_heal (s : Site) (container name : Text) :
    s.heal.store.object? container name = s.store.object? container name := by
  rw [heal_eq]
  rfl

theorem hasContainer_heal (s : Site) (container : Text) :
    s.heal.store.hasContainer container = s.store.hasContainer container := by
  rw [heal_eq]
  rfl

end Site

namespace Transfer

variable {before now : Site} {results : List TransferResult} {tasks : List Task} {task : Task}

/-! ## Stored objects, task by task -/

/-- A task that has succeeded leaves the content of its file; any other leaves its object. -/
theorem Stored.objectOf_eq (h : Stored tasks before now results)
    (hown : ∀ s ∈ tasks, s.objectName = task.objectName → s = task) :
    now.objectOf task =
      if ∃ r ∈ results, r.task = task ∧ r.succeeded = true
      then (before.files.read task.localPath).toOption else before.objectOf task := by
  split
  · next hdone =>
    obtain ⟨r, hr, rfl, hsucceeded⟩ := hdone
    obtain ⟨content, hread, hobject⟩ := h.holds r hr hsucceeded
    rw [hread, hobject]
    rfl
  · next hdone =>
    refine h.same task.container task.objectName fun r hr hsucceeded hsame => hdone ?_
    exact ⟨r, hr, hown r.task (h.mem r hr) hsame.2.symm, hsucceeded⟩

/-- A task of a run has succeeded when it can be stored alone. -/
theorem Stored.exists_succeeded_iff (h : Stored tasks before now results)
    (hmap : results.map TransferResult.task = tasks) :
    (∃ r ∈ results, r.task = task ∧ r.succeeded = true) ↔
      task ∈ tasks ∧ (Site.storeFile task before).1 = .ok () := by
  constructor
  · rintro ⟨r, hr, rfl, hsucceeded⟩
    obtain ⟨duration, halone⟩ := h.alone r hr
    rw [halone, succeeded_ofOutcome] at hsucceeded
    exact ⟨h.mem r hr, hsucceeded⟩
  · rintro ⟨htask, hok⟩
    obtain ⟨r, hr, rfl⟩ := List.mem_map.1 (hmap ▸ htask)
    obtain ⟨duration, halone⟩ := h.alone r hr
    refine ⟨r, hr, rfl, ?_⟩
    rw [halone, succeeded_ofOutcome]
    exact hok

/-- The tasks offered for repeating are those that fail alone with an error worth repeating. -/
theorem Stored.mem_retryableTasks_iff (h : Stored tasks before now results)
    (hmap : results.map TransferResult.task = tasks) :
    task ∈ (Outcome.ofResults results).retryableTasks ↔
      task ∈ tasks ∧ ∃ error, (Site.storeFile task before).1 = .error error ∧
        error.isRetryable = true := by
  have hresult : ∀ r ∈ results, (r.isRetryable = true ∧ r.succeeded = false) ↔
      ∃ error, (Site.storeFile r.task before).1 = .error error ∧ error.isRetryable = true := by
    intro r hr
    obtain ⟨duration, halone⟩ := h.alone r hr
    generalize (Site.storeFile r.task before).1 = outcome at halone
    rw [halone]
    cases outcome with
    | ok _ => simp [TransferResult.ofOutcome, TransferResult.success]
    | error error =>
      simp [TransferResult.ofOutcome, TransferResult.failure, TransferResult.isRetryable,
        Thrown.failureDetail]
  rw [Transfer.mem_retryableTasks_iff]
  constructor
  · rintro ⟨r, hr, hretryable, hfailed, rfl⟩
    exact ⟨h.mem r hr, (hresult r hr).1 ⟨hretryable, hfailed⟩⟩
  · rintro ⟨htask, herror⟩
    obtain ⟨r, hr, rfl⟩ := List.mem_map.1 (hmap ▸ htask)
    obtain ⟨hretryable, hfailed⟩ := (hresult r hr).2 herror
    exact ⟨r, hr, hretryable, hfailed, rfl⟩

/-! ## Repeated batches -/

theorem plainJob_of_upload (h : task.direction = .upload) :
    plainJob Site.transport task = Site.job .upload (fun _ => none) task := by
  simp only [plainJob, h, Site.job, Site.transport]

/-- Tasks that are run again are stored. -/
theorem stored_of_retry {τ : Type} (before : Site) (tasks : List Task)
    (hdirection : ∀ t ∈ tasks, t.direction = .upload)
    (hown : ∀ s ∈ tasks, ∀ t ∈ tasks, s.objectName = t.objectName → s = t)
    (hcontainers : ∀ t ∈ tasks, before.store.hasContainer t.container = true) (host : Host)
    (observer : Observer τ) {concurrency : Number} (hfinite : concurrency.isFinite = true) :
    let ran := retry host Site.transport tasks concurrency observer before
    ∃ results, ran.outcome = .ok results ∧ results.map TransferResult.task = tasks ∧
      Stored tasks before ran.world results := by
  have hjobs : tasks.map (plainJob Site.transport) = tasks.map (Site.job .upload fun _ => none) :=
    List.map_congr_left fun t ht => plainJob_of_upload (hdirection t ht)
  obtain ⟨results, done, hout, hmap, hmem, hdone⟩ := (kept_stored hown hcontainers).exists_results
    (.refl tasks ⟨rfl, rfl, rfl, rfl⟩) host.clock observer hfinite
  simp only [retry, hjobs]
  exact ⟨results, hout, hmap, hdone.of_mem_iff hmem⟩

/-! ## What a second try leaves -/

/-- A second try stores the file of a task: its path is not overlong, and its failure, if there is
one, is worth repeating. -/
structure Mends (site : Site) (task : Task) : Prop where
  short : Files.isOverlong task.localPath = false
  passes : ∀ error, site.store.failureOf task.objectName = some error → error.isRetryable = true

/-- The files of a directory are uploaded in two tries: those that a second try mends are stored,
and nothing else has changed. -/
structure Completed (request : Request) (place : Path) (before after : Site)
    (retried : List TransferResult) : Prop where
  succeeded : ∀ r ∈ retried, r.succeeded = true ↔ Files.isOverlong r.task.localPath = false
  mended : ∀ name content,
    before.files.HoldsFile place (Path.resolve before.files.cwd request.directory) name content →
      Mends before ((sourceOf before.files.cwd request).task name) →
        after.store.object? request.container
          ((sourceOf before.files.cwd request).task name).objectName = some content
  kept : ∀ name content,
    before.files.HoldsFile place (Path.resolve before.files.cwd request.directory) name content →
      ¬ Mends before ((sourceOf before.files.cwd request).task name) →
        after.store.object? request.container
            ((sourceOf before.files.cwd request).task name).objectName =
          before.store.object? request.container
            ((sourceOf before.files.cwd request).task name).objectName
  others : ∀ container name,
    (∀ file content,
      before.files.HoldsFile place (Path.resolve before.files.cwd request.directory) file content →
        ¬ (container = request.container ∧
          name = ((sourceOf before.files.cwd request).task file).objectName)) →
    after.store.object? container name = before.store.object? container name
  containers : ∀ container, after.store.hasContainer container =
    (container == request.container || before.store.hasContainer container)
  files : after.files = before.files

section

variable {request : Request} {site middle after : Site} {found : List (Text × Entry)}
  {place : Path} {retried : List TransferResult} {name : Text} {content : Bytes}

/-- Once no object fails, a file is stored unless its path is overlong. -/
theorem storeFile_heal_eq_ok_iff
    (hplace : site.files.Found (Path.resolve site.files.cwd request.directory) place)
    (htree : site.files.Tree) (hfiles : middle.files = site.files)
    (hfile : site.files.HoldsFile place (Path.resolve site.files.cwd request.directory) name
      content) :
    (Site.storeFile ((sourceOf site.files.cwd request).task name) middle.heal).1 = .ok () ↔
      Files.isOverlong ((sourceOf site.files.cwd request).task name).localPath = false := by
  have hcongr := Site.storeFile_congr (s := site.heal) (t := middle.heal) hfiles
    (by rw [Site.heal_eq, Site.heal_eq]) ((sourceOf site.files.cwd request).task name)
  have hstored := @storeFile_task_eq_ok_iff site.heal (sourceOf site.files.cwd request) place name
    content hplace htree hfile
  rw [hcongr, hstored, Site.failureOf_heal]
  exact and_iff_right rfl

/-- A task that is run twice leaves the content of its file if either run stores it. -/
theorem objectOf_of_two (hown : ∀ s ∈ tasks, s.objectName = task.objectName → s = task)
    (hfirst : Stored tasks (site.withContainer request.container) middle results)
    (hsecond : Stored (Outcome.ofResults results).retryableTasks middle.heal after retried)
    (hsub : ∀ t ∈ (Outcome.ofResults results).retryableTasks, t ∈ tasks) :
    after.objectOf task =
      if (∃ r ∈ retried, r.task = task ∧ r.succeeded = true) ∨
        (∃ r ∈ results, r.task = task ∧ r.succeeded = true)
      then (site.files.read task.localPath).toOption else site.objectOf task := by
  have hfiles : middle.heal.files = site.files := hfirst.files
  have hheal : middle.heal.objectOf task = middle.objectOf task := Site.object?_heal _ _ _
  have hmade : (site.withContainer request.container).objectOf task = site.objectOf task :=
    Site.object?_withContainer _ _ _ _
  have hmadefiles : (site.withContainer request.container).files = site.files := rfl
  rw [hsecond.objectOf_eq fun t ht => hown t (hsub t ht), hheal, hfirst.objectOf_eq hown, hfiles,
    hmadefiles, hmade]
  by_cases hdone : ∃ r ∈ retried, r.task = task ∧ r.succeeded = true
  · rw [if_pos hdone, if_pos (.inl hdone)]
  · rw [if_neg hdone]
    simp only [hdone, false_or]

/-- One of the two tries stores the file of a task exactly when a second try mends it. -/
theorem exists_succeeded_iff_mends
    (hplace : site.files.Found (Path.resolve site.files.cwd request.directory) place)
    (htree : site.files.Tree)
    (hfirst : Stored tasks (site.withContainer request.container) middle results)
    (hmap : results.map TransferResult.task = tasks)
    (hsecond : Stored (Outcome.ofResults results).retryableTasks middle.heal after retried)
    (hmap' : retried.map TransferResult.task = (Outcome.ofResults results).retryableTasks)
    (hfile : site.files.HoldsFile place (Path.resolve site.files.cwd request.directory) name
      content)
    (htask : (sourceOf site.files.cwd request).task name ∈ tasks) :
    ((∃ r ∈ retried, r.task = (sourceOf site.files.cwd request).task name ∧ r.succeeded = true) ∨
      (∃ r ∈ results, r.task = (sourceOf site.files.cwd request).task name ∧
        r.succeeded = true)) ↔
      Mends site ((sourceOf site.files.cwd request).task name) := by
  have hagain := storeFile_heal_eq_ok_iff hplace htree hfirst.files hfile
  have honce := @storeFile_task_eq_ok_iff site (sourceOf site.files.cwd request) _ _ _ hplace htree
    hfile
  rw [hsecond.exists_succeeded_iff hmap', hfirst.exists_succeeded_iff hmap,
    hfirst.mem_retryableTasks_iff hmap, storeFile_withContainer, hagain, honce]
  generalize (sourceOf site.files.cwd request).task name = task at htask ⊢
  have hfails : ∀ error, site.store.failureOf task.objectName = some error →
      (Site.storeFile task site).1 = .error error := fun error h => by rw [Site.storeFile, h]
  constructor
  · rintro (⟨⟨-, error, hstore, hretryable⟩, hshort⟩ | ⟨-, hnone, hshort⟩)
    · refine ⟨hshort, fun other hother => ?_⟩
      have hsame := (hfails other hother).symm.trans hstore
      rw [Except.error.inj hsame]
      exact hretryable
    · exact ⟨hshort, fun error herror => by rw [hnone] at herror; cases herror⟩
  · rintro ⟨hshort, hpasses⟩
    cases hf : site.store.failureOf task.objectName with
    | none => exact .inr ⟨htask, rfl, hshort⟩
    | some error => exact .inl ⟨⟨htask, error, hfails error hf, hpasses error hf⟩, hshort⟩

theorem Stored.completed
    (hplace : site.files.Found (Path.resolve site.files.cwd request.directory) place)
    (htree : site.files.Tree) (hperm : found.Perm (site.files.children place))
    (htasks : tasks = Enumeration.tasksOf site.files (sourceOf site.files.cwd request) found)
    (hfirst : Stored tasks (site.withContainer request.container) middle results)
    (hmap : results.map TransferResult.task = tasks)
    (hsecond : Stored (Outcome.ofResults results).retryableTasks middle.heal after retried)
    (hmap' : retried.map TransferResult.task = (Outcome.ofResults results).retryableTasks) :
    Completed request place site after retried := by
  have hsub : ∀ t ∈ (Outcome.ofResults results).retryableTasks, t ∈ tasks := fun t ht =>
    ((hfirst.mem_retryableTasks_iff hmap).1 ht).1
  have hown : ∀ s ∈ tasks, ∀ t ∈ tasks, s.objectName = t.objectName → s = t := by
    rw [htasks]
    exact fun s hs t ht => eq_of_objectName_of_found htree hperm hs ht
  have hmem : ∀ t, t ∈ tasks ↔ ∃ name content,
      site.files.HoldsFile place (Path.resolve site.files.cwd request.directory) name content ∧
        t = (sourceOf site.files.cwd request).task name := by
    intro t
    rw [htasks]
    exact Enumeration.mem_tasks_iff htree.toNamed hperm
  have htwo : ∀ t ∈ tasks, _ := fun t ht =>
    objectOf_of_two (fun s hs => hown s hs t ht) hfirst hsecond hsub
  have hmends := fun name content hfile => @exists_succeeded_iff_mends _ _ _ _ _ _ _ _ name content
    hplace htree hfirst hmap hsecond hmap' hfile ((hmem _).2 ⟨name, content, hfile, rfl⟩)
  exact
    { succeeded := fun r hr => by
        obtain ⟨name, content, hfile, htask⟩ := (hmem r.task).1 (hsub _ (hsecond.mem r hr))
        obtain ⟨duration, halone⟩ := hsecond.alone r hr
        rw [halone, succeeded_ofOutcome, TransferResult.task_ofOutcome, htask]
        exact storeFile_heal_eq_ok_iff hplace htree hfirst.files hfile
      mended := fun name content hfile hmend => by
        have hobject := htwo _ ((hmem _).2 ⟨name, content, hfile, rfl⟩)
        have hpath := localPath_of_holdsFile (sourceOf site.files.cwd request) htree hfile
        have hread : site.files.read ((sourceOf site.files.cwd request).task name).localPath =
            .ok content := by
          rw [hpath]
          exact (hplace.read_eq_ok_iff htree hfile).2 (hpath ▸ hmend.short)
        rwa [if_pos ((hmends name content hfile).2 hmend), hread] at hobject
      kept := fun name content hfile hmend => by
        have hobject := htwo _ ((hmem _).2 ⟨name, content, hfile, rfl⟩)
        rwa [if_neg (mt (hmends name content hfile).1 hmend)] at hobject
      others := fun container name haway => by
        have hnone : ∀ t ∈ tasks, ¬ (container = t.container ∧ name = t.objectName) := by
          intro t ht
          obtain ⟨file, content, hfile, rfl⟩ := (hmem t).1 ht
          exact haway file content hfile
        rw [hsecond.same container name fun r hr _ => hnone _ (hsub _ (hsecond.mem r hr)),
          Site.object?_heal,
          hfirst.same container name fun r hr _ => hnone _ (hfirst.mem r hr),
          Site.object?_withContainer]
      containers := fun container => by
        rw [hsecond.containers, Site.hasContainer_heal, hfirst.containers,
          Site.hasContainer_withContainer]
      files := hsecond.files.trans hfirst.files }

end

variable {τ υ φ : Type} {host : Host} {request : Request} {site : Site}
  {found : List (Text × Entry)}

/-- Repeating what is worth repeating, once no object fails, completes an upload. -/
theorem completed_of_found (host' : Host) {n : Number} (hfinite : n.isFinite = true)
    (observer : Observer τ) (observer' : Observer υ) (hcwd : site.files.cwd.IsNormal)
    (htree : site.files.Tree)
    (hfault : fault? request.container (concurrencyOf host request).1 request.keyPrefix = none)
    (hcreate : site.store.creationFailure = none)
    (hfound : Enumeration.entries site.files request.directory = .ok found) :
    let ran := upload host Site.transport request observer site
    ∃ results place, ran.outcome = .ok results ∧
      site.files.locate .use (Path.text (Path.resolve site.files.cwd request.directory)) =
        .ok place ∧
      let tasks := (Outcome.ofResults results).retryableTasks
      let again := retry host' Site.transport tasks n observer' ran.world.heal
      ∃ retried, again.outcome = .ok retried ∧ retried.map TransferResult.task = tasks ∧
        Completed request place site again.world retried := by
  intro ran
  obtain ⟨results, place, hout, hplace, hlocate, hperm, hmap, hstored, -⟩ :=
    stored_of_found observer hcwd htree hfault hcreate hfound
  refine ⟨results, place, hout, hlocate, ?_⟩
  intro tasks again
  have hsub : ∀ t ∈ tasks,
      t ∈ Enumeration.tasksOf site.files (sourceOf site.files.cwd request) found := fun t ht =>
    ((hstored.mem_retryableTasks_iff hmap).1 ht).1
  have hsource : ∀ t ∈ tasks, ∃ name, t = (sourceOf site.files.cwd request).task name := by
    intro t ht
    obtain ⟨name, -, -, htask⟩ := (Enumeration.mem_tasks_iff htree.toNamed hperm).1 (hsub t ht)
    exact ⟨name, htask⟩
  obtain ⟨retried, hagain, hmap', hsecond⟩ := stored_of_retry ran.world.heal tasks
    (fun t ht => by
      obtain ⟨name, rfl⟩ := hsource t ht
      rfl)
    (fun s hs t ht => eq_of_objectName_of_found htree hperm (hsub s hs) (hsub t ht))
    (fun t ht => by
      obtain ⟨name, rfl⟩ := hsource t ht
      rw [Site.hasContainer_heal, hstored.containers, Site.hasContainer_withContainer]
      simp [Enumeration.Source.task, sourceOf])
    host' observer' hfinite
  exact ⟨retried, hagain, hmap', hstored.completed hplace htree hperm rfl hmap hsecond hmap'⟩

/-- When every failure is worth repeating, the two tries leave the objects of an upload that meets
no failure. -/
theorem Completed.object?_eq {place : Path} {before after clean : Site}
    {retried uploaded : List TransferResult} (h : Completed request place before after retried)
    (hclean : Uploaded request place before.heal clean uploaded)
    (hpasses : ∀ name error, before.store.failureOf name = some error → error.isRetryable = true)
    (container name : Text) :
    after.store.object? container name = clean.store.object? container name := by
  have hbefore := before.object?_heal container name
  by_cases hof : ∃ file content,
      before.files.HoldsFile place (Path.resolve before.files.cwd request.directory) file content ∧
        container = request.container ∧
        name = ((sourceOf before.files.cwd request).task file).objectName
  · obtain ⟨file, content, hfile, rfl, rfl⟩ := hof
    obtain ⟨r, hr, htask⟩ := (hclean.tasks _).2 ⟨file, content, hfile, rfl⟩
    by_cases hshort :
        Files.isOverlong ((sourceOf before.files.cwd request).task file).localPath = false
    · have hsucceeded : r.succeeded = true := (hclean.succeeded r hr).2
        ⟨before.failureOf_heal _, by rw [htask]; exact hshort⟩
      have hobject := hclean.objects r hr hsucceeded file content hfile htask
      rw [htask] at hobject
      rw [h.mended file content hfile ⟨hshort, hpasses _⟩]
      exact hobject.symm
    · rw [h.kept file content hfile fun hmend => hshort hmend.short, ← hbefore]
      refine (hclean.others _ _ fun s hs hsucceeded hsame => hshort ?_).symm
      obtain ⟨other, -, -, hother⟩ := (hclean.tasks s.task).1 ⟨s, hs, rfl⟩
      have hname : file = other := by
        rw [hother] at hsame
        exact Enumeration.objectName_injective request.keyPrefix hsame.2
      have hpath := ((hclean.succeeded s hs).1 hsucceeded).2
      rw [hother, ← hname] at hpath
      exact hpath
  · rw [h.others container name fun file content hfile hsame =>
      hof ⟨file, content, hfile, hsame.1, hsame.2⟩, ← hbefore]
    refine (hclean.others container name fun s hs _ hsame => hof ?_).symm
    obtain ⟨other, content, hfile, hother⟩ := (hclean.tasks s.task).1 ⟨s, hs, rfl⟩
    exact ⟨other, content, hfile, hsame.1, by rw [hsame.2, hother]; rfl⟩

/-- Once the failures of an upload are removed, running again what is worth repeating gives one
result for each such task, and it succeeds unless its path is overlong.  The two runs together leave
each file of the directory stored, unless its path is overlong or its failure is not worth
repeating; then its object stays as it was, and so does all else.  When every failure is worth
repeating, the objects are those that an upload without failures leaves. -/
theorem retry_completes (host host' host'' : Host) (request : Request) (n : Number)
    (concurrency : Option Number) (observer : Observer τ) (observer' : Observer υ)
    (observer'' : Observer φ) (site : Site) (hfinite : n.isFinite = true)
    (hfinite' : (concurrencyOf host'' { request with concurrency }).1.isFinite = true)
    (hcwd : site.files.cwd.IsNormal) (htree : site.files.Tree)
    (hfault : fault? request.container (concurrencyOf host request).1 request.keyPrefix = none)
    (hcreate : site.store.creationFailure = none)
    (hfound : Enumeration.entries site.files request.directory = .ok found) :
    let ran := upload host Site.transport request observer site
    let clean := upload host'' Site.transport { request with concurrency } observer'' site.heal
    ∃ results place, ran.outcome = .ok results ∧
      site.files.locate .use (Path.text (Path.resolve site.files.cwd request.directory)) =
        .ok place ∧
      let tasks := (Outcome.ofResults results).retryableTasks
      let again := retry host' Site.transport tasks n observer' ran.world.heal
      (∃ retried, again.outcome = .ok retried ∧ retried.map TransferResult.task = tasks ∧
        Completed request place site again.world retried) ∧
      ((∀ name error, site.store.failureOf name = some error → error.isRetryable = true) →
        ∀ container name, again.world.store.object? container name =
          clean.world.store.object? container name) := by
  intro ran clean
  let other : Request := { request with concurrency }
  have hfault' : fault? other.container (concurrencyOf host'' other).1 other.keyPrefix = none :=
    (fault?_congr hfinite' (isFinite_of_fault?_eq_none hfault) _ _).trans hfault
  obtain ⟨results, place, hout, hlocate, retried, hagain, hmap, hcompleted⟩ :=
    completed_of_found host' hfinite observer observer' hcwd htree hfault hcreate hfound
  have hcreate' : site.heal.store.creationFailure = none := by
    rw [Site.heal_eq]
    exact hcreate
  obtain ⟨uploaded, place', -, hlocate', huploaded, -⟩ :=
    @uploaded_of_found φ host'' other site.heal found observer'' hcwd htree hfault' hcreate' hfound
  obtain rfl : place = place' := Except.ok.inj (hlocate.symm.trans hlocate')
  exact ⟨results, place, hout, hlocate, ⟨retried, hagain, hmap, hcompleted⟩,
    hcompleted.object?_eq { huploaded with }⟩

/-- Two files of which one fails with an error worth repeating and the other with another error. -/
def siteOfFailures : Site :=
  let site := siteOfFiles [(["src", "a"], .file [1]), (["src", "b"], .file [2])]
  { site with store :=
      (site.store.failObject "a" (.general "ETIMEDOUT")).failObject "b" (.general "denied") }

/-- Repeating stores the first of the two files; the object of the second stays. -/
theorem retry_completes_one_of_two :
    let request := fromDirectory "/src" (some (.finite 1))
    siteOfFailures.files.cwd.IsNormal ∧ siteOfFailures.files.Tree ∧
      fault? request.container (.finite 1) request.keyPrefix = none ∧
      siteOfFailures.store.creationFailure = none ∧
      ∃ found, Enumeration.entries siteOfFailures.files request.directory = .ok found ∧
      let ran := upload ⟨2, [], .exact⟩ Site.transport request .silent siteOfFailures
      ∃ results, ran.outcome = .ok results ∧
        let again := retry ⟨2, [], .exact⟩ Site.transport (Outcome.ofResults results).retryableTasks
          (.finite 1) .silent ran.world.heal
        again.world.store.object? "c" "a" = some [1] ∧
          again.world.store.object? "c" "b" = some [7] := by
  intro request
  have hcwd : siteOfFailures.files.cwd.IsNormal := by decide +kernel
  have htree : siteOfFailures.files.Tree := by decide +kernel
  have hfault : fault? request.container (.finite 1) request.keyPrefix = none := by decide +kernel
  have hlocate : siteOfFailures.files.locateFor .stat .use
      (Path.text (Path.resolve siteOfFailures.files.cwd request.directory)) = .ok ["src"] := rfl
  have hreached : siteOfFailures.files.locate .use
      (Path.text (Path.resolve siteOfFailures.files.cwd request.directory)) = .ok ["src"] := rfl
  obtain ⟨found, hfound⟩ := Enumeration.exists_entries hlocate rfl
  obtain ⟨results, place, hout, hplace, ⟨retried, -, -, hcompleted⟩, -⟩ :=
    retry_completes ⟨2, [], .exact⟩ ⟨2, [], .exact⟩ ⟨2, [], .exact⟩ request (.finite 1)
      (some (.finite 2)) .silent .silent .silent siteOfFailures rfl rfl hcwd htree hfault rfl hfound
  obtain rfl : (["src"] : Path) = place := Except.ok.inj (hreached.symm.trans hplace)
  refine ⟨hcwd, htree, hfault, rfl, found, hfound, results, hout, ?_, ?_⟩
  · refine hcompleted.mended "a" [1] (.file (by decide +kernel)) ⟨by decide +kernel, ?_⟩
    intro error herror
    have hinjected : siteOfFailures.store.failureOf "a" = some (.general "ETIMEDOUT") := rfl
    obtain rfl := Option.some.inj (hinjected.symm.trans herror)
    decide +kernel
  · refine (hcompleted.kept "b" [2] (.file (by decide +kernel)) fun hmend => ?_).trans rfl
    have hretryable := hmend.passes (.general "denied") rfl
    revert hretryable
    decide +kernel

/-- A file may stay without its object though no object fails, where its path is overlong. -/
theorem not_retry_completes :
    ¬ ∀ (host : Host) (request : Request) (n : Number) (site : Site) (found : List (Text × Entry))
        (results : List TransferResult) (place : Path), n.isFinite = true →
      site.files.cwd.IsNormal → site.files.Tree →
      fault? request.container (concurrencyOf host request).1 request.keyPrefix = none →
      site.store.creationFailure = none →
      Enumeration.entries site.files request.directory = .ok found →
      (upload host Site.transport request .silent site).outcome = .ok results →
      site.files.locate .use (Path.text (Path.resolve site.files.cwd request.directory)) =
        .ok place →
      ∀ name content, site.files.HoldsFile place (Path.resolve site.files.cwd request.directory)
          name content →
        (∀ error, site.store.failureOf ((sourceOf site.files.cwd request).task name).objectName =
          some error → error.isRetryable = true) →
        (retry host Site.transport (Outcome.ofResults results).retryableTasks n .silent
            (upload host Site.transport request .silent site).world.heal).world.store.object?
          request.container ((sourceOf site.files.cwd request).task name).objectName =
            some content := by
  intro h
  obtain ⟨hcwd, htree, hfault, found, hfound, results, hout, -⟩ := upload_winding
  obtain ⟨results', place, hout', hplace, retried, -, -, hcompleted⟩ :=
    @completed_of_found Unit Unit ⟨2, [], .exact⟩ _ _ _ ⟨2, [], .exact⟩ (.finite 1) rfl .silent
      .silent hcwd htree hfault rfl hfound
  obtain rfl : results = results' := Except.ok.inj (hout.symm.trans hout')
  obtain rfl : (["src"] : Path) = place := Except.ok.inj (locate_fromWinding.symm.trans hplace)
  have hstored := h ⟨2, [], .exact⟩ fromWinding (.finite 1) siteOfLink found results ["src"] rfl
    hcwd htree hfault rfl hfound hout locate_fromWinding longName [1] holdsFile_fromWinding
    fun error herror => by
      rw [Store.failureOf_of_empty rfl] at herror
      cases herror
  have hkept := hcompleted.kept longName [1] holdsFile_fromWinding fun hmend => by
    have hshort := hmend.short
    rw [isOverlong_fromWinding] at hshort
    cases hshort
  have hnone : (some [1] : Option Bytes) = none := hstored.symm.trans (hkept.trans rfl)
  cases hnone

end Transfer

end BulkTransfer
