import Mathlib.Data.List.TakeWhile
import BulkTransfer.Proofs.Transfer.Noting
import BulkTransfer.Proofs.Transfer.Uploading

/-!
# All or nothing

A move is rejected before any task is tried, or it gives one result for each task.  What can reject
it comes in a fixed order: the check of the request, making the container of an upload, and listing
the directory or the container (`Rejected`).  The run of a rejected move is told in full by the step
that rejects it, so it does not depend on the observer, and no operation is called
(`Rejected.move_eq`, `Rejected.noting`).
-/

namespace BulkTransfer

/-! ## Blank text -/

theorem Text.isEmpty_trim_iff (t : Text) : (trim t).isEmpty = true ↔ ∀ u ∈ t, isBlank u = true := by
  rw [List.isEmpty_iff, trim, dropRightWhile, List.reverse_eq_nil_iff, List.dropWhile_eq_nil_iff]
  simp only [List.mem_reverse]
  constructor
  · intro h
    -- The first unit that is no blank would be left.
    have hrest : t.dropWhile isBlank = [] := by
      refine List.eq_nil_iff_forall_not_mem.2 fun u hu => ?_
      have hne := List.ne_nil_of_mem hu
      have hhead := List.head_dropWhile_not isBlank hne
      rw [h _ (List.head_mem hne)] at hhead
      exact Bool.noConfusion hhead
    exact List.dropWhile_eq_nil_iff.1 hrest
  · exact fun h u hu => h u ((List.dropWhile_suffix isBlank).subset hu)

/-! ## Directories that cannot be enumerated -/

namespace Enumeration

/-- A directory whose entries cannot be had. -/
inductive Unlistable (files : Files) (directory : Text) : Prop
  | stat {e : FileError}
    (h : files.stat (Path.text (Path.resolve files.cwd directory)) = .error e)
  | notDirectory {entry : Entry}
    (h : files.stat (Path.text (Path.resolve files.cwd directory)) = .ok entry)
    (hentry : entry ≠ .directory)
  | scan {e : FileError}
    (hstat : files.stat (Path.text (Path.resolve files.cwd directory)) = .ok .directory)
    (h : files.scan (Path.text (Path.resolve files.cwd directory)) = .error e)

theorem kind_of_entries_eq_error {files : Files} {directory : Text} {error : Thrown}
    (h : entries files directory = .error error) : error.kind = Wrapper.enumeration.name := by
  rw [entries] at h
  split at h
  · cases h
    rfl
  · split at h
    · cases h
      rfl
    · cases h
  · cases h
    rfl

theorem exists_entries_eq_error_iff {files : Files} {directory : Text} :
    (∃ error, entries files directory = .error error) ↔ Unlistable files directory := by
  constructor
  · rintro ⟨error, h⟩
    rw [entries] at h
    split at h
    · next e hstat => exact .stat hstat
    · next hstat =>
      split at h
      · next e hscan => exact .scan hstat hscan
      · cases h
    · next entry hother hstat => exact .notDirectory hstat hother
  · intro h
    rw [entries]
    cases h with
    | stat h =>
      rw [h]
      exact ⟨_, rfl⟩
    | @notDirectory entry h hentry =>
      rw [h]
      cases entry with
      | directory => exact absurd rfl hentry
      | _ => exact ⟨_, rfl⟩
    | scan hstat h =>
      rw [hstat]
      simp only [h]
      exact ⟨_, rfl⟩

end Enumeration

namespace Transfer

variable {σ τ υ : Type}

/-! ## Refused requests -/

/-- What a request is refused for: a blank container name, a concurrency that is not finite, or a
key prefix that breaks a rule. -/
inductive Misconfigured (host : Host) (request : Request) : Prop
  | container (h : ∀ u ∈ request.container, Text.isBlank u = true)
  | concurrency (h : (concurrencyOf host request).1.isFinite = false)
  | keyPrefix {keys : Text} {fault : KeyPrefixFault} (hkeys : request.keyPrefix = some keys)
    (hne : keys ≠ []) (h : KeyPrefix.fault? keys = some fault)

theorem kind_thrown (fault : RequestFault) : fault.thrown.kind = Plain.configuration.name := by
  cases fault <;> rfl

theorem exists_fault?_iff {host : Host} {request : Request} :
    (∃ fault, fault? request.container (concurrencyOf host request).1 request.keyPrefix =
      some fault) ↔ Misconfigured host request := by
  constructor
  · rintro ⟨fault, h⟩
    rw [fault?] at h
    split at h
    · next hblank => exact .container ((Text.isEmpty_trim_iff _).1 hblank)
    · split at h
      · next hfinite => exact .concurrency (by simpa using hfinite)
      · obtain ⟨broken, hbind, -⟩ := Option.map_eq_some_iff.1 h
        obtain ⟨keys, hkeys, hbroken⟩ := Option.bind_eq_some_iff.1 hbind
        refine .keyPrefix hkeys (fun hempty => ?_) hbroken
        subst hempty
        cases hbroken
  · intro h
    rw [fault?]
    split
    · exact ⟨_, rfl⟩
    · next hblank =>
      split
      · exact ⟨_, rfl⟩
      · next hfinite =>
        cases h with
        | container h => exact absurd ((Text.isEmpty_trim_iff _).2 h) hblank
        | concurrency h => exact absurd (by simp [h]) hfinite
        | keyPrefix hkeys hne h =>
          rw [hkeys, Option.bind_some, h]
          exact ⟨_, rfl⟩

theorem fault?_eq_none_iff {host : Host} {request : Request} :
    fault? request.container (concurrencyOf host request).1 request.keyPrefix = none ↔
      ¬ Misconfigured host request := by
  rw [← exists_fault?_iff, ← Option.ne_none_iff_exists', not_not]

/-! ## Rejected moves -/

/-- The run that makes the container of an upload. -/
def prepared (transport : Transport σ) (request : Request) (world : σ) : Ran σ Unit :=
  transport.ensureContainer request.container world

/-- The runs of rejected moves: what they throw and leave, by the step that rejects them. -/
inductive Rejected (host : Host) (transport : Transport σ) (request : Request) (world : σ) :
    Direction → Ran σ (List TransferResult) → Prop
  | request (direction : Direction) {fault : RequestFault}
    (h : fault? request.container (concurrencyOf host request).1 request.keyPrefix = some fault) :
    Rejected host transport request world direction
      ⟨.error fault.thrown, world, (concurrencyOf host request).2⟩
  | container {error : Thrown}
    (hfault : fault? request.container (concurrencyOf host request).1 request.keyPrefix = none)
    (h : (prepared transport request world).outcome = .error error) :
    Rejected host transport request world .upload
      ⟨.error error, (prepared transport request world).world,
        (concurrencyOf host request).2 ++ (prepared transport request world).events⟩
  | directory {error : Thrown}
    (hfault : fault? request.container (concurrencyOf host request).1 request.keyPrefix = none)
    (hprepared : (prepared transport request world).outcome = .ok ())
    (h : Enumeration.entries (transport.files (prepared transport request world).world)
      request.directory = .error error) :
    Rejected host transport request world .upload
      ⟨.error error, (prepared transport request world).world,
        (concurrencyOf host request).2 ++ (prepared transport request world).events⟩
  | listing {error : Thrown}
    (hfault : fault? request.container (concurrencyOf host request).1 request.keyPrefix = none)
    (h : (listed transport request world).outcome = .error error) :
    Rejected host transport request world .download
      ⟨.error (Enumeration.cannotListContainer request.container error),
        (listed transport request world).world,
        (concurrencyOf host request).2 ++ (listed transport request world).events⟩

theorem Rejected.upload_cause {host : Host} {transport : Transport σ} {request : Request}
    {world : σ} {ran : Ran σ (List TransferResult)}
    (h : Rejected host transport request world .upload ran) :
    Misconfigured host request ∨
      (∃ error, (prepared transport request world).outcome = .error error) ∨
      Enumeration.Unlistable (transport.files (prepared transport request world).world)
        request.directory := by
  cases h with
  | request direction hfault => exact .inl (exists_fault?_iff.1 ⟨_, hfault⟩)
  | container hfault h => exact .inr (.inl ⟨_, h⟩)
  | directory hfault hprepared h =>
    exact .inr (.inr (Enumeration.exists_entries_eq_error_iff.1 ⟨_, h⟩))

theorem Rejected.download_cause {host : Host} {transport : Transport σ} {request : Request}
    {world : σ} {ran : Ran σ (List TransferResult)}
    (h : Rejected host transport request world .download ran) :
    Misconfigured host request ∨
      ∃ error, (listed transport request world).outcome = .error error := by
  cases h with
  | request direction hfault => exact .inl (exists_fault?_iff.1 ⟨_, hfault⟩)
  | listing hfault h => exact .inr ⟨_, h⟩

/-- The tasks of a move, once its request is accepted and the container of an upload is made. -/
def enumerated (transport : Transport σ) (request : Request) (world : σ) :
    Direction → Ran σ (List Task)
  | .upload =>
    let made := (prepared transport request world).world
    Enumeration.ofDirectory (transport.files made) request.container request.directory
      request.keyPrefix made
  | .download =>
    Enumeration.ofContainer transport.list (transport.files world).cwd request.container
      request.directory request.keyPrefix world

section

variable {host : Host} {transport : Transport σ} {request : Request} {world : σ}
  {direction : Direction} {ran : Ran σ (List TransferResult)}

theorem check_of_fault?_eq_some {fault : RequestFault}
    (h : fault? request.container (concurrencyOf host request).1 request.keyPrefix = some fault)
    (world : σ) :
    check host request world = ⟨.error fault.thrown, world, (concurrencyOf host request).2⟩ := by
  simp [check, h, Ran.after, Ran.throw]

/-- The run of a rejected move is the same for all observers. -/
theorem Rejected.move_eq (h : Rejected host transport request world direction ran)
    (observer : Observer τ) : move direction host transport request observer world = ran := by
  cases h with
  | request direction h =>
    have hcheck := check_of_fault?_eq_some h world
    cases direction <;> simp only [move, upload, download, hcheck, Ran.andThen]
  | container hfault h =>
    rw [prepared] at h ⊢
    simp only [move, upload, check_of_fault?_eq_none host hfault, Ran.andThen, h, Ran.after]
  | directory hfault hprepared h =>
    rw [prepared] at hprepared h ⊢
    simp only [move, upload, check_of_fault?_eq_none host hfault, Ran.andThen, hprepared,
      Enumeration.ofDirectory, h, Ran.throw, Ran.after, List.append_nil]
  | listing hfault h =>
    rw [listed] at h ⊢
    simp only [move, download, check_of_fault?_eq_none host hfault, Ran.andThen,
      Enumeration.ofContainer, h, Ran.after]

/-- A rejected move calls no operation. -/
theorem Rejected.noting (h : Rejected host transport request world direction ran)
    (notes : List Note) :
    Rejected host transport.noting request (world, notes) direction (ran.beside notes) := by
  cases h with
  | request direction h => exact .request direction h
  | container hfault h => exact .container hfault h
  | directory hfault hprepared h => exact .directory hfault hprepared h
  | listing hfault h => exact .listing hfault h

/-! ## Moves that are not rejected -/

/-- A run that gives one result for each task of a move, in the order of the tasks. -/
def Completes (transport : Transport σ) (request : Request) (world : σ) (direction : Direction)
    (ran : Ran σ (List TransferResult)) : Prop :=
  ∃ tasks results, (enumerated transport request world direction).outcome = .ok tasks ∧
    ran.outcome = .ok results ∧ results.map TransferResult.task = tasks

/-- A batch of one job for each task of a move completes it. -/
theorem completes_of_run {tasks : List Task} (job : Task → Job σ) (observer : Observer τ)
    (hfault : fault? request.container (concurrencyOf host request).1 request.keyPrefix = none)
    (htasks : (enumerated transport request world direction).outcome = .ok tasks)
    (hjob : ∀ task, (job task).task = task)
    (hrun : ran.outcome = (Dispatch.run host.clock (tasks.map job) (concurrencyOf host request).1
      observer (enumerated transport request world direction).world).outcome) :
    Completes transport request world direction ran := by
  obtain ⟨results, hout, hmap⟩ := Dispatch.exists_results_of_tasks host.clock (tasks.map job)
    observer (enumerated transport request world direction).world
    (isFinite_of_fault?_eq_none hfault)
  exact ⟨tasks, results, htasks, hrun.trans hout, hmap.trans (Dispatch.map_task_map hjob tasks)⟩

theorem Rejected.rejected_move (h : Rejected host transport request world direction ran)
    (observer : Observer τ) :
    Rejected host transport request world direction
      (move direction host transport request observer world) := by
  rw [h.move_eq observer]
  exact h

theorem rejected_or_completes_upload (observer : Observer τ)
    (hfault : fault? request.container (concurrencyOf host request).1 request.keyPrefix = none) :
    let ran := move .upload host transport request observer world
    Rejected host transport request world .upload ran ∨
      Completes transport request world .upload ran := by
  cases hprepared : (prepared transport request world).outcome with
  | error error => exact .inl ((Rejected.container hfault hprepared).rejected_move observer)
  | ok made =>
    cases hentries : Enumeration.entries
        (transport.files (prepared transport request world).world) request.directory with
    | error error =>
      exact .inl ((Rejected.directory hfault hprepared hentries).rejected_move observer)
    | ok found =>
      have htasks : ∃ tasks, (enumerated transport request world .upload).outcome = .ok tasks := by
        simp only [enumerated, Enumeration.ofDirectory, hentries]
        exact ⟨_, rfl⟩
      obtain ⟨tasks, htasks⟩ := htasks
      have hcheck := check_of_fault?_eq_none host hfault world
      refine .inr (completes_of_run (uploadJob transport) observer hfault htasks (fun _ => rfl) ?_)
      rw [move, upload, hcheck]
      exact (Ran.outcome_andThen rfl).trans
        ((Ran.outcome_andThen hprepared).trans (Ran.outcome_andThen htasks))

theorem rejected_or_completes_download (observer : Observer τ)
    (hfault : fault? request.container (concurrencyOf host request).1 request.keyPrefix = none) :
    let ran := move .download host transport request observer world
    Rejected host transport request world .download ran ∨
      Completes transport request world .download ran := by
  cases hlisted : (listed transport request world).outcome with
  | error error => exact .inl ((Rejected.listing hfault hlisted).rejected_move observer)
  | ok names =>
    have htasks : ∃ tasks, (enumerated transport request world .download).outcome = .ok tasks := by
      rw [listed] at hlisted
      simp only [enumerated, Enumeration.ofContainer, hlisted]
      exact ⟨_, rfl⟩
    obtain ⟨tasks, htasks⟩ := htasks
    have hcheck := check_of_fault?_eq_none host hfault world
    let cwd := (transport.files world).cwd
    refine .inr (completes_of_run
      (downloadJob transport cwd request.directory (Collisions.find cwd tasks)) observer hfault
      htasks (fun _ => rfl) ?_)
    rw [move, download, hcheck]
    exact (Ran.outcome_andThen rfl).trans (Ran.outcome_andThen htasks)

/-- Nothing but the steps before the batch can reject a move. -/
theorem rejected_or_completes (host : Host) (transport : Transport σ) (request : Request)
    (observer : Observer τ) (world : σ) (direction : Direction) :
    let ran := move direction host transport request observer world
    Rejected host transport request world direction ran ∨
      Completes transport request world direction ran := by
  cases hfault : fault? request.container (concurrencyOf host request).1 request.keyPrefix with
  | some fault => exact .inl ((Rejected.request direction hfault).rejected_move observer)
  | none =>
    cases direction with
    | upload => exact rejected_or_completes_upload observer hfault
    | download => exact rejected_or_completes_download observer hfault

theorem Rejected.exists_error (h : Rejected host transport request world direction ran) :
    ∃ error, ran.outcome = .error error := by
  cases h <;> exact ⟨_, rfl⟩

/-- A move that throws is one that is rejected. -/
theorem rejected_of_error (direction : Direction) {observer : Observer τ} {error : Thrown}
    (h : (move direction host transport request observer world).outcome = .error error) :
    Rejected host transport request world direction
      (move direction host transport request observer world) := by
  rcases rejected_or_completes host transport request observer world direction with
    hrejected | ⟨tasks, results, -, hout, -⟩
  · exact hrejected
  · rw [h] at hout
    cases hout

end

/-! ## Rejected moves between memory and files -/

/-- All a rejected move may leave behind is the container of an upload, and warnings. -/
structure Untouched (request : Request) (direction : Direction) (before : Site)
    (ran : Ran Site (List TransferResult)) : Prop where
  files : ran.world.files = before.files
  objects : ∀ container name,
    ran.world.store.object? container name = before.store.object? container name
  containers : ran.world.store.containers = before.store.containers ∨
    direction = .upload ∧
      ran.world.store.containers = (before.store.withContainer request.container).containers
  events : ∀ e ∈ ran.events, ∃ text, e = .warn text

theorem warn_of_mem_concurrencyOf {host : Host} {request : Request} {e : Event}
    (h : e ∈ (concurrencyOf host request).2) : ∃ text, e = .warn text := by
  rw [concurrencyOf] at h
  split at h
  · exact absurd h List.not_mem_nil
  · obtain ⟨text, -, rfl⟩ := List.mem_map.1 h
    exact ⟨text, rfl⟩

/-- Making a container changes neither files nor objects. -/
theorem prepared_kept (request : Request) (site : Site) :
    let made := prepared Site.transport request site
    made.events = [] ∧ made.world.files = site.files ∧
      (made.world.store.containers = site.store.containers ∨
        made.world.store.containers = (site.store.withContainer request.container).containers) := by
  have hlog : ((site.store.log (.create request.container)).withContainer
      request.container).containers = (site.store.withContainer request.container).containers := by
    have hthere : (site.store.log (.create request.container)).hasContainer request.container =
        site.store.hasContainer request.container := rfl
    rw [Store.withContainer, Store.withContainer, hthere]
    split <;> rfl
  simp only [prepared, Site.transport, Site.create, Store.create]
  cases site.store.creationFailure with
  | some error => exact ⟨trivial, trivial, .inl rfl⟩
  | none => exact ⟨trivial, trivial, .inr hlog⟩

theorem listed_kept (request : Request) (site : Site) :
    let listed := listed Site.transport request site
    listed.events = [] ∧ listed.world.files = site.files ∧
      listed.world.store.containers = site.store.containers :=
  ⟨rfl, rfl, rfl⟩

theorem untouched_of_prepared {host : Host} {request : Request} {site : Site}
    (outcome : Except Thrown (List TransferResult)) :
    Untouched request .upload site
      ⟨outcome, (prepared Site.transport request site).world,
        (concurrencyOf host request).2 ++ (prepared Site.transport request site).events⟩ := by
  obtain ⟨hevents, hfiles, hcontainers⟩ := prepared_kept request site
  refine ⟨hfiles, fun container name => ?_, hcontainers.imp id fun h => ⟨rfl, h⟩, fun e he => ?_⟩
  · rcases hcontainers with h | h
    · exact Store.object?_congr h container name
    · rw [Store.object?_congr h, Store.object?_withContainer]
  · rw [hevents, List.append_nil] at he
    exact warn_of_mem_concurrencyOf he

theorem Rejected.untouched {host : Host} {request : Request} {site : Site} {direction : Direction}
    {ran : Ran Site (List TransferResult)}
    (h : Rejected host Site.transport request site direction ran) :
    Untouched request direction site ran := by
  cases h with
  | request direction h =>
    exact ⟨rfl, fun _ _ => rfl, .inl rfl, fun _ he => warn_of_mem_concurrencyOf he⟩
  | container hfault h => exact untouched_of_prepared _
  | directory hfault hprepared h => exact untouched_of_prepared _
  | listing hfault h =>
    obtain ⟨hevents, hfiles, hcontainers⟩ := listed_kept request site
    refine ⟨hfiles, Store.object?_congr hcontainers, .inl hcontainers, fun e he => ?_⟩
    rw [hevents, List.append_nil] at he
    exact warn_of_mem_concurrencyOf he

/-! ## The contract of moves -/

/-- An upload is rejected before any task is tried, exactly when its request is refused, its
container cannot be made or its directory cannot be enumerated; otherwise it gives one result for
each task. -/
structure UploadContract (host : Host) (transport : Transport σ) (request : Request)
    (observer : Observer τ) (world : σ) : Prop where
  rejects_iff :
    (∃ error, (upload host transport request observer world).outcome = .error error) ↔
      Misconfigured host request ∨
      (∃ error, (prepared transport request world).outcome = .error error) ∨
      Enumeration.Unlistable (transport.files (prepared transport request world).world)
        request.directory
  /-- A refused request calls nothing. -/
  refused : Misconfigured host request → ∃ error, error.kind = Plain.configuration.name ∧
    upload host transport request observer world =
      ⟨.error error, world, (concurrencyOf host request).2⟩
  /-- What making the container throws is thrown on. -/
  unprepared : ¬ Misconfigured host request → ∀ error,
    (prepared transport request world).outcome = .error error →
    upload host transport request observer world =
      ⟨.error error, (prepared transport request world).world,
        (concurrencyOf host request).2 ++ (prepared transport request world).events⟩
  unlistable : ¬ Misconfigured host request → (prepared transport request world).outcome = .ok () →
    Enumeration.Unlistable (transport.files (prepared transport request world).world)
      request.directory →
    ∃ error, error.kind = Wrapper.enumeration.name ∧
      upload host transport request observer world =
        ⟨.error error, (prepared transport request world).world,
          (concurrencyOf host request).2 ++ (prepared transport request world).events⟩
  /-- No operation is called when the upload is rejected. -/
  untried : ∀ error, (upload host transport request observer world).outcome = .error error →
    ∀ notes, upload host transport.noting request observer (world, notes) =
      (upload host transport request observer world).beside notes
  /-- No observer is told anything when the upload is rejected. -/
  unheard : ∀ error, (upload host transport request observer world).outcome = .error error →
    ∀ {υ : Type} (other : Observer υ), upload host transport request other world =
      upload host transport request observer world
  completes : (¬ ∃ error, (upload host transport request observer world).outcome = .error error) →
    Completes transport request world .upload (upload host transport request observer world)

/-- A download is rejected before any task is tried, exactly when its request is refused or its
container cannot be listed; otherwise it gives one result for each task. -/
structure DownloadContract (host : Host) (transport : Transport σ) (request : Request)
    (observer : Observer τ) (world : σ) : Prop where
  rejects_iff :
    (∃ error, (download host transport request observer world).outcome = .error error) ↔
      Misconfigured host request ∨
      ∃ error, (listed transport request world).outcome = .error error
  refused : Misconfigured host request → ∃ error, error.kind = Plain.configuration.name ∧
    download host transport request observer world =
      ⟨.error error, world, (concurrencyOf host request).2⟩
  unlisted : ¬ Misconfigured host request →
    (∃ error, (listed transport request world).outcome = .error error) →
    ∃ error, error.kind = Wrapper.enumeration.name ∧
      download host transport request observer world =
        ⟨.error error, (listed transport request world).world,
          (concurrencyOf host request).2 ++ (listed transport request world).events⟩
  untried : ∀ error, (download host transport request observer world).outcome = .error error →
    ∀ notes, download host transport.noting request observer (world, notes) =
      (download host transport request observer world).beside notes
  unheard : ∀ error, (download host transport request observer world).outcome = .error error →
    ∀ {υ : Type} (other : Observer υ), download host transport request other world =
      download host transport request observer world
  completes :
    (¬ ∃ error, (download host transport request observer world).outcome = .error error) →
    Completes transport request world .download (download host transport request observer world)

section

variable {host : Host} {transport : Transport σ} {request : Request} {world : σ}
  (direction : Direction)

/-- A rejected move calls no operation: it goes as it would with notes, and none is made. -/
theorem untried_of_error {observer : Observer τ} {error : Thrown}
    (h : (move direction host transport request observer world).outcome = .error error)
    (notes : List Note) : move direction host transport.noting request observer (world, notes) =
      (move direction host transport request observer world).beside notes :=
  ((rejected_of_error direction h).noting notes).move_eq observer

theorem unheard_of_error {observer : Observer τ} {error : Thrown}
    (h : (move direction host transport request observer world).outcome = .error error)
    (other : Observer υ) : move direction host transport request other world =
      move direction host transport request observer world :=
  (rejected_of_error direction h).move_eq other

theorem completes_of_no_error {observer : Observer τ}
    (h : ¬ ∃ error, (move direction host transport request observer world).outcome = .error error) :
    Completes transport request world direction
      (move direction host transport request observer world) :=
  (rejected_or_completes host transport request observer world direction).resolve_left
    fun hrejected => h hrejected.exists_error

theorem refused_of_misconfigured (transport : Transport σ) (world : σ)
    (h : Misconfigured host request) (observer : Observer τ) :
    ∃ error, error.kind = Plain.configuration.name ∧
      move direction host transport request observer world =
        ⟨.error error, world, (concurrencyOf host request).2⟩ := by
  obtain ⟨fault, hfault⟩ := exists_fault?_iff.2 h
  exact ⟨_, kind_thrown fault, (Rejected.request direction hfault).move_eq observer⟩

theorem upload_of_unprepared (h : ¬ Misconfigured host request) {error : Thrown}
    (hprepared : (prepared transport request world).outcome = .error error)
    (observer : Observer τ) :
    upload host transport request observer world =
      ⟨.error error, (prepared transport request world).world,
        (concurrencyOf host request).2 ++ (prepared transport request world).events⟩ :=
  (Rejected.container (fault?_eq_none_iff.2 h) hprepared).move_eq observer

theorem upload_of_unlistable (h : ¬ Misconfigured host request)
    (hprepared : (prepared transport request world).outcome = .ok ())
    (hunlistable : Enumeration.Unlistable
      (transport.files (prepared transport request world).world) request.directory)
    (observer : Observer τ) :
    ∃ error, error.kind = Wrapper.enumeration.name ∧
      upload host transport request observer world =
        ⟨.error error, (prepared transport request world).world,
          (concurrencyOf host request).2 ++ (prepared transport request world).events⟩ := by
  obtain ⟨error, hentries⟩ := Enumeration.exists_entries_eq_error_iff.2 hunlistable
  exact ⟨error, Enumeration.kind_of_entries_eq_error hentries,
    (Rejected.directory (fault?_eq_none_iff.2 h) hprepared hentries).move_eq observer⟩

theorem exists_error_upload (observer : Observer τ)
    (h : Misconfigured host request ∨
      (∃ error, (prepared transport request world).outcome = .error error) ∨
      Enumeration.Unlistable (transport.files (prepared transport request world).world)
        request.directory) :
    ∃ error, (upload host transport request observer world).outcome = .error error := by
  by_cases hmis : Misconfigured host request
  · obtain ⟨error, -, hran⟩ := refused_of_misconfigured .upload transport world hmis observer
    exact ⟨error, congrArg Ran.outcome hran⟩
  cases hprepared : (prepared transport request world).outcome with
  | error error =>
    exact ⟨error, congrArg Ran.outcome (upload_of_unprepared hmis hprepared observer)⟩
  | ok made =>
    have hunlistable : Enumeration.Unlistable
        (transport.files (prepared transport request world).world) request.directory := by
      rcases h with hconf | ⟨error, hfails⟩ | hunlistable
      · exact absurd hconf hmis
      · rw [hprepared] at hfails
        cases hfails
      · exact hunlistable
    obtain ⟨error, -, hran⟩ := upload_of_unlistable hmis hprepared hunlistable observer
    exact ⟨error, congrArg Ran.outcome hran⟩

theorem download_of_unlistable (h : ¬ Misconfigured host request)
    (hlisted : ∃ error, (listed transport request world).outcome = .error error)
    (observer : Observer τ) :
    ∃ error, error.kind = Wrapper.enumeration.name ∧
      download host transport request observer world =
        ⟨.error error, (listed transport request world).world,
          (concurrencyOf host request).2 ++ (listed transport request world).events⟩ := by
  obtain ⟨error, hfails⟩ := hlisted
  exact ⟨_, rfl, (Rejected.listing (fault?_eq_none_iff.2 h) hfails).move_eq observer⟩

theorem exists_error_download (observer : Observer τ)
    (h : Misconfigured host request ∨
      ∃ error, (listed transport request world).outcome = .error error) :
    ∃ error, (download host transport request observer world).outcome = .error error := by
  by_cases hmis : Misconfigured host request
  · obtain ⟨error, -, hran⟩ := refused_of_misconfigured .download transport world hmis observer
    exact ⟨error, congrArg Ran.outcome hran⟩
  · obtain ⟨error, -, hran⟩ := download_of_unlistable hmis (h.resolve_left hmis) observer
    exact ⟨error, congrArg Ran.outcome hran⟩

end

theorem uploadContract (host : Host) (transport : Transport σ) (request : Request)
    (observer : Observer τ) (world : σ) :
    UploadContract host transport request observer world where
  rejects_iff := ⟨fun ⟨_, h⟩ => (rejected_of_error .upload h).upload_cause,
    exists_error_upload observer⟩
  refused := fun h => refused_of_misconfigured .upload transport world h observer
  unprepared := fun h _ hprepared => upload_of_unprepared h hprepared observer
  unlistable := fun h hprepared hunlistable =>
    upload_of_unlistable h hprepared hunlistable observer
  untried := fun _ h => untried_of_error .upload h
  unheard := fun _ h => unheard_of_error .upload h
  completes := completes_of_no_error .upload

theorem downloadContract (host : Host) (transport : Transport σ) (request : Request)
    (observer : Observer τ) (world : σ) :
    DownloadContract host transport request observer world where
  rejects_iff := ⟨fun ⟨_, h⟩ => (rejected_of_error .download h).download_cause,
    exists_error_download observer⟩
  refused := fun h => refused_of_misconfigured .download transport world h observer
  unlisted := fun h hlisted => download_of_unlistable h hlisted observer
  untried := fun _ h => untried_of_error .download h
  unheard := fun _ h => unheard_of_error .download h
  completes := completes_of_no_error .download

/-- Every upload and every download is rejected before any task is tried or gives one result for
each task, whatever the operations and the observer throw; and between memory and files, a
rejection leaves the files and all objects as they were. -/
theorem move_all_or_nothing :
    (∀ {σ τ : Type} (host : Host) (transport : Transport σ) (request : Request)
      (observer : Observer τ) (world : σ),
      UploadContract host transport request observer world ∧
        DownloadContract host transport request observer world) ∧
    ∀ {τ : Type} (host : Host) (request : Request) (observer : Observer τ) (site : Site)
      (direction : Direction) (error : Thrown),
      (move direction host Site.transport request observer site).outcome = .error error →
        Untouched request direction site
          (move direction host Site.transport request observer site) :=
  ⟨fun host transport request observer world =>
      ⟨uploadContract host transport request observer world,
        downloadContract host transport request observer world⟩,
    fun _ _ _ _ direction _ h => (rejected_of_error direction h).untouched⟩

end Transfer

end BulkTransfer
