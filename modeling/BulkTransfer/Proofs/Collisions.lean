import Mathlib.Data.List.Induction
import Mathlib.Data.List.Nodup
import BulkTransfer.Collisions

/-!
# Owners of paths

The first task of a path owns it, and a task is listed as a collision exactly when another task
owns its path (`find?_find`).  When tasks come in the order of their object names, a task is not
listed exactly when its name is the least one of its path (`find?_find_eq_none_iff`).
-/

namespace BulkTransfer

namespace Collisions

/-- The first task that resolves to a path. -/
def owner? (cwd : Path) (tasks : List Task) (path : Path) : Option Task :=
  tasks.find? fun task => Path.resolve cwd task.localPath = path

/-- The task whose object name is the least one among the tasks that share its path. -/
def IsFirst (cwd : Path) (tasks : List Task) (task : Task) : Prop :=
  task ∈ tasks ∧ ∀ other ∈ tasks,
    Path.resolve cwd other.localPath = Path.resolve cwd task.localPath →
      task.objectName ≤ other.objectName

/-- Claims list the owner of each path, and under the name of each task its path's owner if that is
another task. -/
structure Claims.Describe (cwd : Path) (tasks : List Task) (claims : Claims) : Prop where
  owners : ∀ path, claims.owners.find? path = (owner? cwd tasks path).map Task.objectName
  late : ∀ task ∈ tasks, claims.late.find? task.objectName =
    ((owner? cwd tasks (Path.resolve cwd task.localPath)).filter (· ≠ task)).map Task.objectName
  fresh : ∀ name ∉ tasks.map Task.objectName, claims.late.find? name = none

/-! ## Owners -/

theorem owner?_append_singleton (cwd : Path) (tasks : List Task) (task : Task) (path : Path) :
    owner? cwd (tasks ++ [task]) path =
      (owner? cwd tasks path).or
        (if Path.resolve cwd task.localPath = path then some task else none) := by
  rw [owner?, List.find?_append, List.find?_singleton, owner?]
  simp only [decide_eq_true_eq]

theorem mem_of_owner? {cwd : Path} {tasks : List Task} {path : Path} {task : Task}
    (h : owner? cwd tasks path = some task) :
    task ∈ tasks ∧ Path.resolve cwd task.localPath = path :=
  ⟨List.mem_of_find?_eq_some h, by simpa using List.find?_some h⟩

theorem exists_owner? (cwd : Path) {tasks : List Task} {task : Task} (h : task ∈ tasks) :
    ∃ owner, owner? cwd tasks (Path.resolve cwd task.localPath) = some owner :=
  Option.isSome_iff_exists.1 (List.find?_isSome.2 ⟨task, h, by simp⟩)

theorem owner?_append_of_mem (cwd : Path) {tasks : List Task} {old : Task} (h : old ∈ tasks)
    (task : Task) :
    owner? cwd (tasks ++ [task]) (Path.resolve cwd old.localPath) =
      owner? cwd tasks (Path.resolve cwd old.localPath) := by
  obtain ⟨owner, howner⟩ := exists_owner? cwd h
  rw [owner?_append_singleton, howner, Option.some_or]

/-! ## Claims -/

variable {cwd : Path}

theorem describe_empty : Claims.Describe cwd [] ⟨.empty, .empty⟩ where
  owners := fun _ => rfl
  late := fun _ h => absurd h List.not_mem_nil
  fresh := fun _ _ => rfl

/-- The owner of a free path is the task that claims it. -/
theorem Claims.Describe.add_free {tasks : List Task} {claims : Claims} {task : Task}
    (h : claims.Describe cwd tasks) (hnew : task.objectName ∉ tasks.map Task.objectName)
    (hfree : owner? cwd tasks (Path.resolve cwd task.localPath) = none) :
    Claims.Describe cwd (tasks ++ [task])
      { claims with
        owners := claims.owners.insert (Path.resolve cwd task.localPath) task.objectName } where
  owners := fun path => by
    rw [OrderedMap.find?_insert, owner?_append_singleton]
    by_cases hpath : path = Path.resolve cwd task.localPath
    · subst hpath
      simp [hfree]
    · have hne : Path.resolve cwd task.localPath ≠ path := fun e => hpath e.symm
      simp [hpath, hne, h.owners]
  late := fun other hother => by
    rcases List.mem_append.1 hother with hold | hother
    · rw [owner?_append_of_mem cwd hold]
      exact h.late other hold
    · rw [List.mem_singleton.1 hother, owner?_append_singleton, hfree, if_pos rfl]
      simpa [Option.filter_some] using h.fresh _ hnew
  fresh := fun name hname => h.fresh name (by simp_all)

/-- A task whose path has an owner comes too late. -/
theorem Claims.Describe.add_late {tasks : List Task} {claims : Claims} {task owner : Task}
    (h : claims.Describe cwd tasks) (hnew : task.objectName ∉ tasks.map Task.objectName)
    (howner : owner? cwd tasks (Path.resolve cwd task.localPath) = some owner) :
    Claims.Describe cwd (tasks ++ [task])
      { claims with late := claims.late.insert task.objectName owner.objectName } where
  owners := fun path => by
    rw [h.owners, owner?_append_singleton]
    by_cases hpath : Path.resolve cwd task.localPath = path
    · simp [← hpath, howner]
    · simp [hpath]
  late := fun other hother => by
    rw [OrderedMap.find?_insert]
    rcases List.mem_append.1 hother with hold | hother
    · have hne : other.objectName ≠ task.objectName :=
        fun e => hnew (List.mem_map.2 ⟨other, hold, e⟩)
      rw [owner?_append_of_mem cwd hold]
      simpa [hne] using h.late other hold
    · have hdiffer : owner ≠ task :=
        fun e => hnew (List.mem_map.2 ⟨owner, (mem_of_owner? howner).1, by rw [e]⟩)
      rw [List.mem_singleton.1 hother, owner?_append_singleton, howner]
      simp [Option.filter_some, hdiffer]
  fresh := fun name hname => by
    rw [List.map_append, List.mem_append, not_or] at hname
    have hne : name ≠ task.objectName := by simpa using hname.2
    rw [OrderedMap.find?_insert]
    simpa [hne] using h.fresh name hname.1

theorem Claims.Describe.add {tasks : List Task} {claims : Claims} {task : Task}
    (h : claims.Describe cwd tasks) (hnew : task.objectName ∉ tasks.map Task.objectName) :
    (claims.add cwd task).Describe cwd (tasks ++ [task]) := by
  have howners := h.owners (Path.resolve cwd task.localPath)
  rw [Claims.add]
  cases ho : owner? cwd tasks (Path.resolve cwd task.localPath) with
  | none =>
    rw [ho] at howners
    simp only [howners, Option.map_none]
    exact h.add_free hnew ho
  | some owner =>
    rw [ho] at howners
    simp only [howners, Option.map_some]
    exact h.add_late hnew ho

theorem describe_foldl (cwd : Path) (tasks : List Task) (h : (tasks.map Task.objectName).Nodup) :
    (tasks.foldl (Claims.add cwd) ⟨.empty, .empty⟩).Describe cwd tasks := by
  -- From the front, as the claims are made: the last task meets the claims of all before it.
  induction tasks using List.reverseRecOn with
  | nil => exact describe_empty
  | append_singleton tasks task ih =>
    rw [List.map_append, List.nodup_append] at h
    rw [List.foldl_append]
    exact (ih h.1).add fun hmem => h.2.2 _ hmem _ (by simp) rfl

/-- A task is listed under its name with the owner of its path, if that is another task. -/
theorem find?_find (cwd : Path) {tasks : List Task} (h : (tasks.map Task.objectName).Nodup)
    {task : Task} (htask : task ∈ tasks) :
    (find cwd tasks).find? task.objectName =
      ((owner? cwd tasks (Path.resolve cwd task.localPath)).filter (· ≠ task)).map
        Task.objectName :=
  (describe_foldl cwd tasks h).late task htask

/-! ## Tasks in the order of their names -/

variable {tasks : List Task} (h : tasks.Pairwise fun s t => s.objectName < t.objectName)

include h

theorem nodup_objectNames : (tasks.map Task.objectName).Nodup := by
  refine List.pairwise_map.2 (h.imp ?_)
  intro s t hlt hsame
  rw [hsame] at hlt
  exact List.lt_irrefl _ hlt

/-- The owner of a path has the least name of that path. -/
theorem isFirst_of_owner? {path : Path} {task : Task} (howner : owner? cwd tasks path = some task) :
    IsFirst cwd tasks task := by
  obtain ⟨hmem, rfl⟩ := mem_of_owner? howner
  refine ⟨hmem, fun other hother hsame => ?_⟩
  obtain ⟨-, before, after, rfl, hbefore⟩ := List.find?_eq_some_iff_append.1 howner
  -- Tasks before the owner have other paths, and tasks after it have greater names.
  rcases List.mem_append.1 hother with hother | hother
  · exact absurd hsame (by simpa using hbefore other hother)
  · rcases List.mem_cons.1 hother with rfl | hother
    · exact List.le_refl _
    · exact List.le_of_lt (List.rel_of_pairwise_cons (List.pairwise_append.1 h).2.1 hother)

theorem IsFirst.eq {s t : Task} (hs : IsFirst cwd tasks s) (ht : IsFirst cwd tasks t)
    (hsame : Path.resolve cwd s.localPath = Path.resolve cwd t.localPath) : s = t := by
  have hname : s.objectName = t.objectName :=
    List.le_antisymm (hs.2 t ht.1 hsame.symm) (ht.2 s hs.1 hsame)
  exact List.inj_on_of_nodup_map (nodup_objectNames h) hs.1 ht.1 hname

theorem owner?_eq_some_iff {path : Path} {task : Task} :
    owner? cwd tasks path = some task ↔
      IsFirst cwd tasks task ∧ Path.resolve cwd task.localPath = path := by
  constructor
  · exact fun howner => ⟨isFirst_of_owner? h howner, (mem_of_owner? howner).2⟩
  · rintro ⟨hfirst, rfl⟩
    obtain ⟨owner, howner⟩ := exists_owner? cwd hfirst.1
    rw [howner, (isFirst_of_owner? h howner).eq h hfirst (mem_of_owner? howner).2]

/-- A task is listed with a name exactly when this is the name of another task, which owns its
path. -/
theorem find?_find_eq_some_iff {task : Task} (htask : task ∈ tasks) {name : Text} :
    (find cwd tasks).find? task.objectName = some name ↔
      ∃ owner, IsFirst cwd tasks owner ∧ owner ≠ task ∧ owner.objectName = name ∧
        Path.resolve cwd owner.localPath = Path.resolve cwd task.localPath := by
  simp only [find?_find cwd (nodup_objectNames h) htask, Option.map_eq_some_iff,
    Option.filter_eq_some_iff, owner?_eq_some_iff h, decide_eq_true_eq]
  exact exists_congr fun owner => by tauto

/-- A task is not listed exactly when its name is the least one of its path. -/
theorem find?_find_eq_none_iff {task : Task} (htask : task ∈ tasks) :
    (find cwd tasks).find? task.objectName = none ↔ IsFirst cwd tasks task := by
  rw [find?_find cwd (nodup_objectNames h) htask]
  obtain ⟨owner, howner⟩ := exists_owner? cwd htask
  obtain ⟨hfirst, hsame⟩ := (owner?_eq_some_iff h).1 howner
  rw [howner]
  by_cases hown : owner = task
  · simpa [Option.filter_some, hown] using hown ▸ hfirst
  · have hnot : ¬ IsFirst cwd tasks task := fun ht => hown (hfirst.eq h ht hsame)
    simp [Option.filter_some, hown, hnot]

end Collisions

end BulkTransfer
