import BulkTransfer.Proofs.Files.Receiving
import BulkTransfer.Proofs.Store
import BulkTransfer.Proofs.Transfer.Operations

/-!
# Downloads of a directory's files

The objects under a key prefix may be those of files with names of their own (`Offers`), which is
how an upload leaves them.  A download offers them to a directory that is empty or missing: no task
is refused, and each fetch succeeds and leaves the directory one that receives the others
(`Received`, `download_offered`).  Then the files stand below the directory, and no others
(`Received.file_iff`).
-/

namespace BulkTransfer

namespace Transfer

/-! ## Downloads into a directory -/

/-- The task that downloads the object of a name under a key prefix to a file of a directory. -/
def fileTask (container : Text) (directory : Path) (keys name : Text) : Task :=
  ⟨container, keys ++ name, Path.text (directory ++ [name]), .download⟩

theorem downloadTask_append {container keys name : Text} {directory : Path}
    (hname : Path.IsName name) :
    Enumeration.downloadTask container directory keys (keys ++ name) =
      fileTask container directory keys name := by
  have hlocal : Enumeration.localName keys (keys ++ name) = name := by
    simp [Enumeration.localName]
  rw [Enumeration.downloadTask, hlocal, Path.join_of_isName directory hname, fileTask]

variable {before now next : Site} {results : List TransferResult} {tasks : List Task}
  {container keys name : Text} {directory place : Path} {content : Bytes}

theorem fileTask_injective {other : Text}
    (h : fileTask container directory keys name = fileTask container directory keys other) :
    name = other :=
  List.append_cancel_left (congrArg Task.objectName h)

/-- All tasks so far have succeeded, and their files stand in the directory; nothing else has
changed but for directories on the way down to it. -/
structure Received (container : Text) (directory place : Path) (keys : Text) (before now : Site)
    (results : List TransferResult) : Prop where
  containers : now.store.containers = before.store.containers
  failures : now.store.failures = before.store.failures
  closed : now.files.Closed
  receives : now.files.Receives directory place
  succeeded : ∀ r ∈ results, r.succeeded = true
  builds : Files.Builds (· <+: place)
    (fun path => ∃ r ∈ results, ∃ name, r.task = fileTask container directory keys name ∧
      path = place ++ [name]) before.files now.files
  holds : ∀ r ∈ results, ∀ name, r.task = fileTask container directory keys name →
    now.files.Found directory place ∧ ∃ content, before.objectOf r.task = some content ∧
      now.files.entry? (place ++ [name]) = some (.file content)

namespace Received

theorem refl (hsame : Site.SameContent before now) (hclosed : before.files.Closed)
    (hreceives : before.files.Receives directory place) :
    Received container directory place keys before now [] where
  containers := hsame.containers
  failures := hsame.failures
  closed := hsame.files ▸ hclosed
  receives := hsame.files ▸ hreceives
  succeeded := fun _ hr => absurd hr List.not_mem_nil
  builds := hsame.files ▸ .refl _ _ _
  holds := fun _ hr => absurd hr List.not_mem_nil

theorem congr (h : Received container directory place keys before now results)
    (hsame : Site.SameContent now next) :
    Received container directory place keys before next results where
  containers := hsame.containers.trans h.containers
  failures := hsame.failures.trans h.failures
  closed := hsame.files ▸ h.closed
  receives := hsame.files ▸ h.receives
  succeeded := h.succeeded
  builds := hsame.files ▸ h.builds
  holds := hsame.files ▸ h.holds

theorem of_mem_iff {others : List TransferResult}
    (h : Received container directory place keys before now results)
    (hmem : ∀ r, r ∈ others ↔ r ∈ results) :
    Received container directory place keys before now others where
  containers := h.containers
  failures := h.failures
  closed := h.closed
  receives := h.receives
  succeeded := fun r hr => h.succeeded r ((hmem r).1 hr)
  builds := h.builds.mono (fun _ => id) fun _ ⟨r, hr, hrest⟩ => ⟨r, (hmem r).2 hr, hrest⟩
  holds := fun r hr => h.holds r ((hmem r).1 hr)

/-- The fetch of an object to a new file of the directory succeeds. -/
theorem fetch (h : Received container directory place keys before now results)
    (hname : Files.IsFileName name) (hp : (directory ++ [name]).IsNormal)
    (hfits : Files.Fits (directory ++ [name]))
    (hfree : before.files.entry? (place ++ [name]) = none)
    (hsound : before.store.failureOf (keys ++ name) = none)
    (hobject : before.objectOf (fileTask container directory keys name) = some content)
    (duration : Time) :
    let task := fileTask container directory keys name
    Received container directory place keys before (Site.fetchFile task now).2
      (results ++ [.ofOutcome task (Site.fetchFile task now).1 duration]) := by
  intro task
  have hsound' : now.store.failureOf task.objectName = none := by
    rw [Store.failureOf, h.failures]
    exact hsound
  have hobject' : now.objectOf task = some content :=
    (Site.objectOf_congr h.containers task).trans hobject
  have hentry : now.files.entry? (place ++ [name]) = none ∨
      ∃ old, now.files.entry? (place ++ [name]) = some (.file old) := by
    have hchange := h.builds.change (place ++ [name])
    rw [hfree] at hchange
    generalize now.files.entry? (place ++ [name]) = entry at hchange ⊢
    cases hchange with
    | same => exact .inl rfl
    | made hmade => exact absurd hmade (Files.not_append_isPrefix_self _ _)
    | created _ old => exact .inr ⟨old, rfl⟩
  obtain ⟨files, hwrite, hbuilds, hclosed, hfound, hfile⟩ :=
    h.receives.writeUnder h.closed hname hp hfits hentry content
  have hfetch : Site.fetchFile task now = (.ok (), { now with files }) := by
    have hwrite' : now.files.writeUnder task.localPath content = (.ok (), files) := hwrite
    rw [Site.fetchFile_of_object hsound' hobject', hwrite']
    rfl
  rw [hfetch]
  refine
    { containers := h.containers
      failures := h.failures
      closed := hclosed
      receives := .found hfound
      succeeded := List.forall_mem_append.2 ⟨h.succeeded, List.forall_mem_singleton.2 rfl⟩
      builds := .trans (h.builds.mono (fun _ => id) ?_) (hbuilds.mono (fun _ => id) ?_)
      holds := List.forall_mem_append.2 ⟨fun r hr other htask => ⟨hfound, ?_⟩,
        List.forall_mem_singleton.2 fun other htask => ⟨hfound, ?_⟩⟩ }
  · rintro path ⟨r, hr, hrest⟩
    exact ⟨r, List.mem_append_left _ hr, hrest⟩
  · rintro path rfl
    exact ⟨_, List.mem_append_right _ (List.mem_singleton.2 rfl), name, rfl, rfl⟩
  · obtain ⟨-, old, hold, hentry⟩ := h.holds r hr other htask
    by_cases hsame : other = name
    · subst hsame
      rw [htask, hobject] at hold
      exact ⟨content, by rw [htask, hobject], hfile⟩
    · refine ⟨old, hold, (hbuilds.file_iff (fun hpath => hsame ?_) old).2 hentry⟩
      exact List.singleton_inj.1 (List.append_cancel_left hpath)
  · obtain rfl := fileTask_injective htask
    exact ⟨content, hobject, hfile⟩

end Received

/-- Fetches of objects to new files of a directory all succeed. -/
theorem kept_received {refusal : Task → Option Thrown} (hdirectory : directory.IsNormal)
    (hopen : ∀ task ∈ tasks, refusal task = none)
    (htasks : ∀ task ∈ tasks, ∃ name content, task = fileTask container directory keys name ∧
      Files.IsFileName name ∧ Files.Fits (directory ++ [name]) ∧
      before.files.entry? (place ++ [name]) = none ∧
      before.store.failureOf (keys ++ name) = none ∧ before.objectOf task = some content) :
    Site.Kept .download refusal tasks (Received container directory place keys before) where
  congr := fun hsame h => h.congr hsame
  refused := fun htask hrefusal => by
    rw [hopen _ htask] at hrefusal
    cases hrefusal
  done := fun {task now results} htask _ h duration => by
    obtain ⟨name, content, rfl, hname, hfits, hfree, hsound, hobject⟩ := htasks task htask
    exact h.fetch hname (hdirectory.append fun _ hn => List.mem_singleton.1 hn ▸ hname.isName)
      hfits hfree hsound hobject duration

/-! ## Downloads of offered files -/

/-- The objects under a key prefix are those of files that a directory can receive. -/
structure Offers (site : Site) (container keys : Text) (directory : Path)
    (offered : Text → Bytes → Prop) : Prop where
  objects : ∀ name content,
    site.store.object? container (keys ++ name) = some content ↔ offered name content
  named : ∀ name content, offered name content → Files.IsFileName name
  short : ∀ name content, offered name content →
    Files.isOverlong (Path.text (directory ++ [name])) = false

theorem isFolderMarker_append (hname : Path.IsName name) :
    Enumeration.isFolderMarker (keys ++ name) = false := by
  obtain ⟨first, rest, rfl⟩ := List.exists_cons_of_ne_nil hname.ne_nil
  rw [Enumeration.isFolderMarker, List.getLast?_append_of_ne_nil _ hname.ne_nil]
  cases hlast : (first :: rest).getLast? with
  | none => rfl
  | some u =>
    have hslash : u ≠ Text.slash := fun e => hname.no_slash (e ▸ List.mem_of_getLast? hlast)
    simpa using hslash

/-- No successful fetch goes to an overlong path. -/
theorem kept_short {refusal : Task → Option Thrown}
    (htasks : ∀ task ∈ tasks, ∃ p : Path, p.IsNormal ∧ task.localPath = Path.text p) :
    Site.Kept .download refusal tasks fun _ results =>
      ∀ r ∈ results, r.succeeded = true → Files.isOverlong r.task.localPath = false where
  congr := fun _ h => h
  refused := fun _ _ h _ =>
    List.forall_mem_append.2 ⟨h, List.forall_mem_singleton.2 fun e => by cases e⟩
  done := fun {task now results} htask _ h duration => by
    refine List.forall_mem_append.2 ⟨h, List.forall_mem_singleton.2 fun hsucceeded => ?_⟩
    rw [succeeded_ofOutcome] at hsucceeded
    obtain ⟨p, hp, hpath⟩ := htasks task htask
    cases hf : Site.work .download task now with
    | mk outcome next =>
      rw [hf] at hsucceeded
      obtain rfl : outcome = .ok () := hsucceeded
      obtain ⟨content, files, -, hwrite, -⟩ := Site.fetchFile_ok hf
      rw [TransferResult.task_ofOutcome, hpath]
      rw [hpath] at hwrite
      exact (Files.fits_of_writeUnder hp hwrite).short

variable {τ υ : Type} {host : Host} {request : Request} {site : Site} {names : List Text}
  {offered : Text → Bytes → Prop}

/-- The listed tasks are those of the offered files. -/
theorem mem_listedTasks_iff (cwd : Path)
    (hoffers : Offers site request.container (KeyPrefix.normalize request.keyPrefix)
      (Path.resolve cwd request.directory) offered)
    (hnames : ∀ full, full ∈ names ↔ KeyPrefix.normalize request.keyPrefix <+: full ∧
      ∃ content, site.store.object? request.container full = some content) {task : Task} :
    task ∈ listedTasks cwd request names ↔ ∃ name content, offered name content ∧
      task = fileTask request.container (Path.resolve cwd request.directory)
        (KeyPrefix.normalize request.keyPrefix) name := by
  rw [listedTasks, Enumeration.mem_ofNames_iff]
  constructor
  · rintro ⟨full, hfull, -, rfl⟩
    obtain ⟨⟨name, rfl⟩, content, hobject⟩ := (hnames full).1 hfull
    have hoffered := (hoffers.objects name content).1 hobject
    have hname := (hoffers.named name content hoffered).isName
    exact ⟨name, content, hoffered, downloadTask_append hname⟩
  · rintro ⟨name, content, hoffered, rfl⟩
    have hname := (hoffers.named name content hoffered).isName
    exact ⟨KeyPrefix.normalize request.keyPrefix ++ name,
      (hnames _).2 ⟨List.prefix_append _ _, content, (hoffers.objects name content).2 hoffered⟩,
      isFolderMarker_append hname, (downloadTask_append hname).symm⟩

/-- The tasks of files with names of their own in the destination are not refused. -/
theorem refusal_of_fileTask {cwd : Path} {destination : Text} (hcwd : cwd.IsNormal)
    (hsorted : tasks.Pairwise fun s t => s.objectName < t.objectName)
    (htasks : ∀ task ∈ tasks, ∃ name, Path.IsName name ∧
      task = fileTask container (Path.resolve cwd destination) keys name) {task : Task}
    (htask : task ∈ tasks) : batchRefusal cwd destination tasks task = none := by
  have hdirectory := Path.isNormal_resolve hcwd destination
  have hresolve : ∀ {name}, Path.IsName name →
      Path.resolve cwd (Path.text (Path.resolve cwd destination ++ [name])) =
        Path.resolve cwd destination ++ [name] := fun hname =>
    Path.resolve_text _ (hdirectory.append fun _ h => List.mem_singleton.1 h ▸ hname)
  obtain ⟨name, hname, rfl⟩ := htasks task htask
  rw [batchRefusal, refusal?_eq_none_iff hcwd hsorted htask]
  refine ⟨⟨htask, fun other hother hsame => ?_⟩, ?_, ?_⟩
  · obtain ⟨another, hanother, rfl⟩ := htasks other hother
    rw [fileTask, fileTask, hresolve hname, hresolve hanother] at hsame
    obtain rfl := List.singleton_inj.1 (List.append_cancel_left hsame)
    exact List.le_refl _
  · rw [fileTask, hresolve hname]
    exact List.prefix_append _ _
  · rw [fileTask, hresolve hname]
    simp

/-- A download of offered files into a vacant directory gives one result for each of them, all of
them successful. -/
theorem download_offered (observer : Observer τ) (hcwd : site.files.cwd.IsNormal)
    (htree : site.files.Tree)
    (hfault : fault? request.container (concurrencyOf host request).1 request.keyPrefix = none)
    (hsound : site.store.IsSound)
    (hthere : site.store.hasContainer request.container = true)
    (hoffers : Offers site request.container (KeyPrefix.normalize request.keyPrefix)
      (Path.resolve site.files.cwd request.directory) offered)
    (hvacant : site.files.Vacant (Path.resolve site.files.cwd request.directory) place) :
    let ran := download host Site.transport request observer site
    let directory := Path.resolve site.files.cwd request.directory
    let keys := KeyPrefix.normalize request.keyPrefix
    ∃ results, ran.outcome = .ok results ∧
      (results.Pairwise fun r s => r.task.objectName < s.task.objectName) ∧
      (∀ task, (∃ r ∈ results, r.task = task) ↔ ∃ name content, offered name content ∧
        task = fileTask request.container directory keys name) ∧
      Received request.container directory place keys site ran.world results := by
  intro ran directory keys
  have hdirectory : directory.IsNormal := Path.isNormal_resolve hcwd request.directory
  obtain ⟨names, hlist, hnames⟩ : ∃ names,
      (listed Site.transport request site).outcome = .ok names ∧
      ∀ full, full ∈ names ↔ keys <+: full ∧
        ∃ content, site.store.object? request.container full = some content :=
    site.store.exists_list hsound.listing hthere keys
  have hmem : ∀ task, task ∈ listedTasks site.files.cwd request names ↔ ∃ name content,
      offered name content ∧ task = fileTask request.container directory keys name :=
    fun task => mem_listedTasks_iff site.files.cwd hoffers hnames
  have hsorted := pairwise_listedTasks site.files.cwd request names
  have hopen : ∀ task ∈ listedTasks site.files.cwd request names, batchRefusal site.files.cwd
      request.directory (listedTasks site.files.cwd request names) task = none := by
    have hnamed : ∀ task ∈ listedTasks site.files.cwd request names, ∃ name, Path.IsName name ∧
        task = fileTask request.container directory keys name := by
      intro task htask
      obtain ⟨name, content, hoffered, rfl⟩ := (hmem task).1 htask
      exact ⟨name, (hoffers.named name content hoffered).isName, rfl⟩
    exact fun task => refusal_of_fileTask hcwd hsorted hnamed
  have hk : Site.Kept .download
      (batchRefusal site.files.cwd request.directory (listedTasks site.files.cwd request names))
      (listedTasks site.files.cwd request names)
      (Received request.container directory place keys site) := by
    refine kept_received hdirectory hopen fun task htask => ?_
    obtain ⟨name, content, hoffered, rfl⟩ := (hmem task).1 htask
    have hname := hoffers.named name content hoffered
    exact ⟨name, content, rfl, hname,
      ⟨Files.isUsable_append (hvacant.usable hdirectory) hname.usable,
        hoffers.short name content hoffered⟩,
      hvacant.entry?_below hdirectory htree (List.cons_ne_nil _ _),
      hsound.objects _,
      (hoffers.objects name content).2 hoffered⟩
  obtain ⟨results, done, hout, htasks, hdone, hreceived⟩ := download_kept observer hfault hlist hk
    (.refl ⟨rfl, rfl, rfl, rfl⟩ htree.closed (hvacant.receives hdirectory))
  refine ⟨results, hout, ?_, fun task => ?_, hreceived.of_mem_iff hdone⟩
  · rwa [← htasks, List.pairwise_map] at hsorted
  · rw [← List.mem_map, htasks, hmem]

/-- The files below a directory that has received all offered files are these. -/
theorem Received.file_iff (h : Received container directory place keys before now results)
    (hempty : ∀ below, below ≠ [] → before.files.entry? (place ++ below) = none)
    (htasks : ∀ task, (∃ r ∈ results, r.task = task) ↔ ∃ name content, offered name content ∧
      task = fileTask container directory keys name)
    (hobjects : ∀ name content,
      before.store.object? container (keys ++ name) = some content ↔ offered name content)
    {below : Path} (hbelow : below ≠ []) (content : Bytes) :
    now.files.entry? (place ++ below) = some (.file content) ↔
      ∃ name, below = [name] ∧ offered name content := by
  constructor
  · intro hafter
    obtain ⟨r, hr, name, htask, hpath⟩ :=
      h.builds.written_of_file hafter (by rw [hempty below hbelow]; simp)
    obtain rfl := List.append_cancel_left hpath
    obtain ⟨-, found, hobject, hentry⟩ := h.holds r hr name htask
    rw [hafter] at hentry
    cases hentry
    rw [htask] at hobject
    exact ⟨name, rfl, (hobjects name content).1 hobject⟩
  · rintro ⟨name, rfl, hoffered⟩
    obtain ⟨r, hr, htask⟩ := (htasks _).2 ⟨name, content, hoffered, rfl⟩
    obtain ⟨-, found, hobject, hentry⟩ := h.holds r hr name htask
    rw [htask] at hobject
    obtain rfl := Option.some.inj (hobject.symm.trans ((hobjects name content).2 hoffered))
    exact hentry

end Transfer

end BulkTransfer
