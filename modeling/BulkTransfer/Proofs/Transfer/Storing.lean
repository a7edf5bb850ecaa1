import BulkTransfer.Proofs.Store
import BulkTransfer.Proofs.Transfer.Operations

/-!
# What storing leaves

An upload task reads a file into the store.  Tasks with names of their own, into containers that are
there, end as they would alone, and none overwrites what another one has stored (`kept_stored`).
-/

namespace BulkTransfer

namespace Site

theorem storeFile_ok {task : Task} {s after : Site} (h : storeFile task s = (.ok (), after)) :
    s.store.failureOf task.objectName = none ∧ ∃ content,
      s.files.read task.localPath = .ok content ∧
        after = { s with store := s.store.seed task.container task.objectName content } := by
  rw [storeFile] at h
  cases hf : s.store.failureOf task.objectName with
  | some error => simp [hf] at h
  | none =>
    cases hr : s.files.read task.localPath with
    | error e => simp [hf, hr] at h
    | ok content =>
      simp only [hf, hr] at h
      exact ⟨rfl, content, rfl, (Prod.mk.inj h).2.symm⟩

theorem storeFile_error {task : Task} {s after : Site} {error : Thrown}
    (h : storeFile task s = (.error error, after)) : after = s := by
  rw [storeFile] at h
  cases hf : s.store.failureOf task.objectName with
  | some error =>
    simp only [hf] at h
    exact (Prod.mk.inj h).2.symm
  | none =>
    cases hr : s.files.read task.localPath with
    | error e =>
      simp only [hf, hr] at h
      exact (Prod.mk.inj h).2.symm
    | ok content => simp [hf, hr] at h

/-- How a file is stored depends only on the files and on which objects fail. -/
theorem storeFile_congr {s t : Site} (hfiles : t.files = s.files)
    (hfailures : t.store.failures = s.store.failures) (task : Task) :
    (storeFile task t).1 = (storeFile task s).1 := by
  simp only [storeFile, Store.failureOf, hfiles, hfailures]
  split
  · rfl
  · split <;> rfl

theorem storeFile_eq_ok_iff {task : Task} {s : Site} :
    (storeFile task s).1 = .ok () ↔
      s.store.failureOf task.objectName = none ∧
        ∃ content, s.files.read task.localPath = .ok content := by
  rw [storeFile]
  cases s.store.failureOf task.objectName with
  | some error => simp
  | none => cases s.files.read task.localPath <;> simp

end Site

namespace Transfer

variable {before now next : Site} {results : List TransferResult} {tasks : List Task}

/-! ## What storing keeps -/

/-- The results so far are those of tasks that are alone.  The objects of successful tasks hold what
was read; all else is as before. -/
structure Stored (tasks : List Task) (before now : Site) (results : List TransferResult) :
    Prop where
  files : now.files = before.files
  failures : now.store.failures = before.store.failures
  listingFailure : now.store.listingFailure = before.store.listingFailure
  mem : ∀ r ∈ results, r.task ∈ tasks
  alone : ∀ r ∈ results, ∃ duration,
    r = .ofOutcome r.task (Site.storeFile r.task before).1 duration
  holds : ∀ r ∈ results, r.succeeded = true → ∃ content,
    before.files.read r.task.localPath = .ok content ∧ now.objectOf r.task = some content
  same : ∀ container name, (∀ r ∈ results, r.succeeded = true →
      ¬ (container = r.task.container ∧ name = r.task.objectName)) →
    now.store.object? container name = before.store.object? container name
  containers : ∀ container, now.store.hasContainer container = before.store.hasContainer container

namespace Stored

theorem refl (tasks : List Task) (hsame : Site.SameContent before now) :
    Stored tasks before now [] where
  files := hsame.files
  failures := hsame.failures
  listingFailure := hsame.listingFailure
  mem := fun _ hr => absurd hr List.not_mem_nil
  alone := fun _ hr => absurd hr List.not_mem_nil
  holds := fun _ hr => absurd hr List.not_mem_nil
  same := fun container name _ => Store.object?_congr hsame.containers container name
  containers := Store.hasContainer_congr hsame.containers

theorem congr (h : Stored tasks before now results) (hsame : Site.SameContent now next) :
    Stored tasks before next results where
  files := hsame.files.trans h.files
  failures := hsame.failures.trans h.failures
  listingFailure := hsame.listingFailure.trans h.listingFailure
  mem := h.mem
  alone := h.alone
  holds := fun r hr hs => by
    rw [Site.objectOf_congr hsame.containers]
    exact h.holds r hr hs
  same := fun container name haway => by
    rw [Store.object?_congr hsame.containers]
    exact h.same container name haway
  containers := fun container => by
    rw [Store.hasContainer_congr hsame.containers]
    exact h.containers container

theorem of_mem_iff {others : List TransferResult} (h : Stored tasks before now results)
    (hmem : ∀ r, r ∈ others ↔ r ∈ results) : Stored tasks before now others where
  files := h.files
  failures := h.failures
  listingFailure := h.listingFailure
  mem := fun r hr => h.mem r ((hmem r).1 hr)
  alone := fun r hr => h.alone r ((hmem r).1 hr)
  holds := fun r hr => h.holds r ((hmem r).1 hr)
  same := fun container name haway => h.same container name fun r hr => haway r ((hmem r).2 hr)
  containers := h.containers

theorem fail (h : Stored tasks before now results) {task : Task} (htask : task ∈ tasks)
    {error : Thrown} (halone : (Site.storeFile task before).1 = .error error) (duration : Time) :
    Stored tasks before now (results ++ [.failure task error duration]) := by
  have hold : ∀ {p : TransferResult → Prop},
      (∀ r ∈ results, r.succeeded = true → p r) →
        ∀ r ∈ results ++ [.failure task error duration], r.succeeded = true → p r :=
    fun hp => List.forall_mem_append.2 ⟨hp, List.forall_mem_singleton.2 fun e => by cases e⟩
  exact
    { h with
      mem := List.forall_mem_append.2 ⟨h.mem, List.forall_mem_singleton.2 htask⟩
      alone := List.forall_mem_append.2 ⟨h.alone, List.forall_mem_singleton.2
        ⟨duration, by rw [TransferResult.failure, halone]; rfl⟩⟩
      holds := hold h.holds
      same := fun container name haway =>
        h.same container name fun r hr => haway r (List.mem_append_left _ hr) }

theorem succeed (h : Stored tasks before now results)
    (hown : ∀ s ∈ tasks, ∀ t ∈ tasks, s.objectName = t.objectName → s = t) {task : Task}
    (htask : task ∈ tasks) (hcontainer : before.store.hasContainer task.container = true)
    (halone : (Site.storeFile task before).1 = .ok ()) {content : Bytes}
    (hread : before.files.read task.localPath = .ok content) (duration : Time) :
    Stored tasks before
      { now with store := now.store.seed task.container task.objectName content }
      (results ++ [.success task duration]) where
  files := h.files
  failures := h.failures
  listingFailure := h.listingFailure
  mem := List.forall_mem_append.2 ⟨h.mem, List.forall_mem_singleton.2 htask⟩
  alone := List.forall_mem_append.2 ⟨h.alone, List.forall_mem_singleton.2
    ⟨duration, by rw [TransferResult.success, halone]; rfl⟩⟩
  holds := by
    refine List.forall_mem_append.2 ⟨fun r hr hs => ?_, List.forall_mem_singleton.2 fun _ => ?_⟩
    · obtain ⟨old, hold, hobject⟩ := h.holds r hr hs
      rw [Site.objectOf, Store.object?_seed]
      -- An object of the same name is the task's own, read from the same file.
      split
      · next hsame =>
        rw [hown _ (h.mem r hr) _ htask hsame.2] at hold ⊢
        exact ⟨content, hread, rfl⟩
      · exact ⟨old, hold, hobject⟩
    · refine ⟨content, hread, ?_⟩
      rw [Site.objectOf, Store.object?_seed]
      exact if_pos ⟨rfl, rfl⟩
  same := fun container name haway => by
    have hnot : ¬ (container = task.container ∧ name = task.objectName) :=
      haway (.success task duration) (by simp) rfl
    rw [Store.object?_seed, if_neg hnot]
    exact h.same container name fun r hr => haway r (List.mem_append_left _ hr)
  containers := fun container => by
    rw [Store.hasContainer_seed, h.containers]
    by_cases hc : container = task.container
    · simp [hc, hcontainer]
    · simp [hc]

end Stored

/-- The uploads of tasks with names of their own, into containers that are there, keep what storing
keeps. -/
theorem kept_stored (hown : ∀ s ∈ tasks, ∀ t ∈ tasks, s.objectName = t.objectName → s = t)
    (hcontainers : ∀ t ∈ tasks, before.store.hasContainer t.container = true) :
    Site.Kept .upload (fun _ => none) tasks (Stored tasks before) where
  congr := fun hsame h => h.congr hsame
  refused := fun _ hr _ _ => by cases hr
  done := fun {task s results} htask _ h duration => by
    have hwork : Site.work .upload task s = Site.storeFile task s := rfl
    have halone := Site.storeFile_congr h.files h.failures task
    rw [hwork]
    rcases hf : Site.storeFile task s with ⟨outcome, next⟩
    rw [hf] at halone
    cases outcome with
    | error error =>
      obtain rfl := Site.storeFile_error hf
      exact h.fail htask halone.symm duration
    | ok _ =>
      obtain ⟨-, content, hread, rfl⟩ := Site.storeFile_ok hf
      rw [h.files] at hread
      exact h.succeed hown htask (hcontainers task htask) halone.symm hread duration

end Transfer

end BulkTransfer
