import BulkTransfer.Proofs.Collisions

/-!
# How paths are allotted

Among tasks of different names the first task of a path owns it, and the owners are the tasks
without an entry (`contains_find_iff`).  The entries stand in the order of their tasks
(`keys_find`).  Together each path goes to one task (`find_allots`).
-/

namespace BulkTransfer

namespace Collisions

/-- Two tasks resolve to the same path. -/
def SharePath (cwd : Path) (s t : Task) : Prop :=
  Path.resolve cwd s.localPath = Path.resolve cwd t.localPath

/-- Entries allot each path to the first of its tasks.  A task has an entry exactly when an earlier
one shares its path, and the entry names the first of all that share it.  So the tasks without an
entry have different paths, every path of the list belongs to one of them, and none of the named
owners has an entry.  The entries are those of tasks, and stand in the order of the tasks. -/
structure Allots (cwd : Path) (tasks : List Task) (found : OrderedMap Text Text) : Prop where
  contains_iff : ∀ {before task after}, tasks = before ++ task :: after →
    (found.contains task.objectName = true ↔ ∃ earlier ∈ before, SharePath cwd earlier task)
  first : ∀ {task name}, task ∈ tasks → found.find? task.objectName = some name →
    ∃ before owner after, tasks = before ++ owner :: after ∧ owner.objectName = name ∧
      SharePath cwd owner task ∧ ∀ earlier ∈ before, ¬ SharePath cwd earlier task
  apart : (tasks.filter fun task => !found.contains task.objectName).Pairwise
    fun s t => ¬ SharePath cwd s t
  owned : ∀ task ∈ tasks, ∃! owner, owner ∈ tasks ∧ found.contains owner.objectName = false ∧
    SharePath cwd owner task
  free : ∀ entry ∈ found.pairs, found.contains entry.2 = false
  keys_eq : found.keys =
    (tasks.filter fun task => found.contains task.objectName).map Task.objectName

variable {cwd : Path} {tasks : List Task}

/-! ## Owners -/

/-- A task owns its path unless a task before it does. -/
theorem owner?_append_cons (before : List Task) (task : Task) (after : List Task) :
    owner? cwd (before ++ task :: after) (Path.resolve cwd task.localPath) =
      (owner? cwd before (Path.resolve cwd task.localPath)).or (some task) := by
  rw [owner?, List.find?_append, List.find?_cons_of_pos (by simp), owner?]

theorem owner?_eq_none_iff {path : Path} :
    owner? cwd tasks path = none ↔ ∀ task ∈ tasks, Path.resolve cwd task.localPath ≠ path := by
  simp [owner?]

/-- The owner of a path owns its own path. -/
theorem owner?_of_owner? {path : Path} {owner : Task} (h : owner? cwd tasks path = some owner) :
    owner? cwd tasks (Path.resolve cwd owner.localPath) = some owner := by
  rw [(mem_of_owner? h).2, h]

section

variable (h : (tasks.map Task.objectName).Nodup)

include h

/-- A task owns its path exactly when no earlier task shares it. -/
theorem owner?_eq_self_iff {before after : List Task} {task : Task}
    (hsplit : tasks = before ++ task :: after) :
    owner? cwd tasks (Path.resolve cwd task.localPath) = some task ↔
      ∀ earlier ∈ before, ¬ SharePath cwd earlier task := by
  subst hsplit
  rw [owner?_append_cons]
  cases hearlier : owner? cwd before (Path.resolve cwd task.localPath) with
  | none => exact iff_of_true rfl (owner?_eq_none_iff.1 hearlier)
  | some owner =>
    obtain ⟨hmem, hshare⟩ := mem_of_owner? hearlier
    refine iff_of_false (fun hself => ?_) fun hnone => hnone owner hmem hshare
    -- The task does not stand before itself, as no other task has its name.
    obtain rfl : owner = task := Option.some.inj hself
    rw [List.map_append, List.nodup_append] at h
    exact h.2.2 _ (List.mem_map_of_mem hmem) _ (List.mem_map_of_mem List.mem_cons_self) rfl

/-! ## Entries -/

/-- The tasks without an entry are the owners. -/
theorem contains_find_iff {task : Task} (htask : task ∈ tasks) :
    (find cwd tasks).contains task.objectName = true ↔
      owner? cwd tasks (Path.resolve cwd task.localPath) ≠ some task := by
  obtain ⟨owner, howner⟩ := exists_owner? cwd htask
  rw [OrderedMap.contains, find?_find cwd h htask, howner]
  by_cases hown : owner = task <;> simp [Option.filter_some, hown]

theorem contains_find_eq_false_iff {task : Task} (htask : task ∈ tasks) :
    (find cwd tasks).contains task.objectName = false ↔
      owner? cwd tasks (Path.resolve cwd task.localPath) = some task := by
  rw [← Bool.not_eq_true, contains_find_iff h htask, not_not]

/-- An entry names the owner of the path. -/
theorem exists_owner_of_find? {task : Task} {name : Text} (htask : task ∈ tasks)
    (hname : (find cwd tasks).find? task.objectName = some name) :
    ∃ owner, owner? cwd tasks (Path.resolve cwd task.localPath) = some owner ∧
      owner.objectName = name := by
  rw [find?_find cwd h htask, Option.map_eq_some_iff] at hname
  obtain ⟨owner, howner, hsame⟩ := hname
  exact ⟨owner, (Option.filter_eq_some_iff.1 howner).1, hsame⟩

/-- The tasks without an entry have different paths. -/
theorem eq_of_sharePath {s t : Task} (hs : s ∈ tasks) (ht : t ∈ tasks)
    (hsfree : (find cwd tasks).contains s.objectName = false)
    (htfree : (find cwd tasks).contains t.objectName = false) (hshare : SharePath cwd s t) :
    s = t := by
  rw [contains_find_eq_false_iff h hs, hshare] at hsfree
  rw [contains_find_eq_false_iff h ht] at htfree
  exact Option.some.inj (hsfree.symm.trans htfree)

/-- The owner of a path has no entry. -/
theorem contains_find_of_owner? {path : Path} {owner : Task}
    (howner : owner? cwd tasks path = some owner) :
    (find cwd tasks).contains owner.objectName = false :=
  (contains_find_eq_false_iff h (mem_of_owner? howner).1).2 (owner?_of_owner? howner)

end

/-! ## The order of entries -/

/-- The tasks that own no path. -/
def late (cwd : Path) (tasks : List Task) : List Task :=
  tasks.filter fun task => owner? cwd tasks (Path.resolve cwd task.localPath) ≠ some task

/-- One more task is late when its path has an owner. -/
theorem late_append_singleton {task : Task} (hnew : task.objectName ∉ tasks.map Task.objectName) :
    late cwd (tasks ++ [task]) = late cwd tasks ++
      if (owner? cwd tasks (Path.resolve cwd task.localPath)).isSome then [task] else [] := by
  have hold : tasks.filter (fun old => owner? cwd (tasks ++ [task])
      (Path.resolve cwd old.localPath) ≠ some old) = late cwd tasks :=
    List.filter_congr fun old hmem => by rw [owner?_append_of_mem cwd hmem]
  rw [late, List.filter_append, hold, List.filter_singleton, owner?_append_singleton, if_pos rfl]
  cases howner : owner? cwd tasks (Path.resolve cwd task.localPath) with
  | none => simp
  | some owner =>
    have hne : owner ≠ task := fun e => hnew (List.mem_map.2 ⟨owner, (mem_of_owner? howner).1,
      by rw [e]⟩)
    simp [hne]

/-- The claims after one more task list it last, if its path has an owner. -/
theorem Claims.Describe.keys_add {claims : Claims} {task : Task}
    (h : claims.Describe cwd tasks) (hnew : task.objectName ∉ tasks.map Task.objectName) :
    (claims.add cwd task).late.keys = claims.late.keys ++
      if (owner? cwd tasks (Path.resolve cwd task.localPath)).isSome then [task.objectName]
      else [] := by
  have howners := h.owners (Path.resolve cwd task.localPath)
  rw [Claims.add]
  cases ho : owner? cwd tasks (Path.resolve cwd task.localPath) with
  | none =>
    rw [ho] at howners
    simp [howners]
  | some owner =>
    rw [ho] at howners
    have hfresh : task.objectName ∉ claims.late.keys := fun hmem => by
      obtain ⟨name, hname⟩ := (OrderedMap.mem_keys_iff _).1 hmem
      rw [h.fresh _ hnew] at hname
      cases hname
    simp [howners, OrderedMap.keys_insert_of_not_mem _ _ _ hfresh]

/-- The entries are those of the late tasks, in their order. -/
theorem keys_find (cwd : Path) {tasks : List Task} (h : (tasks.map Task.objectName).Nodup) :
    (find cwd tasks).keys = (late cwd tasks).map Task.objectName := by
  -- From the front, as the claims are made; the claims so far describe the tasks so far.
  induction tasks using List.reverseRecOn with
  | nil => rfl
  | append_singleton tasks task ih =>
    rw [List.map_append, List.nodup_append] at h
    have hnew : task.objectName ∉ tasks.map Task.objectName :=
      fun hmem => h.2.2 _ hmem _ (by simp) rfl
    have hkeys := (describe_foldl cwd tasks h.1).keys_add hnew
    have hfind : (tasks.foldl (Claims.add cwd) ⟨.empty, .empty⟩).late = find cwd tasks := rfl
    rw [hfind, ih h.1] at hkeys
    rw [late_append_singleton hnew, find, List.foldl_append]
    refine hkeys.trans ?_
    split <;> simp

theorem nodup_keys_find (cwd : Path) (h : (tasks.map Task.objectName).Nodup) :
    (find cwd tasks).keys.Nodup := by
  rw [keys_find cwd h]
  exact h.sublist (List.filter_sublist.map _)

theorem late_eq (h : (tasks.map Task.objectName).Nodup) :
    late cwd tasks = tasks.filter fun task => (find cwd tasks).contains task.objectName := by
  refine List.filter_congr fun task htask => Bool.eq_iff_iff.2 ?_
  rw [decide_eq_true_iff, contains_find_iff h htask]

/-! ## Allotment -/

/-- The entries of tasks of different names allot each path to its first task. -/
theorem find_allots (cwd : Path) {tasks : List Task} (h : (tasks.map Task.objectName).Nodup) :
    Allots cwd tasks (find cwd tasks) where
  contains_iff := fun {before task after} hsplit => by
    have htask : task ∈ tasks := hsplit ▸ List.mem_append_right _ List.mem_cons_self
    rw [contains_find_iff h htask, Ne, owner?_eq_self_iff h hsplit]
    push Not
    rfl
  first := fun {task name} htask hname => by
    obtain ⟨owner, howner, rfl⟩ := exists_owner_of_find? h htask hname
    obtain ⟨-, before, after, hsplit, hbefore⟩ := List.find?_eq_some_iff_append.1 howner
    refine ⟨before, owner, after, hsplit, rfl, (mem_of_owner? howner).2, fun earlier he => ?_⟩
    have hdiffer : Path.resolve cwd earlier.localPath ≠ Path.resolve cwd task.localPath := by
      simpa using hbefore earlier he
    exact hdiffer
  apart := by
    have hnodup : (tasks.filter fun task =>
        !(find cwd tasks).contains task.objectName).Nodup := (List.Nodup.of_map _ h).filter _
    refine hnodup.imp_of_mem fun {s t} hs ht hne hshare => hne ?_
    rw [List.mem_filter, Bool.not_eq_true'] at hs ht
    exact eq_of_sharePath h hs.1 ht.1 hs.2 ht.2 hshare
  owned := fun task htask => by
    obtain ⟨owner, howner⟩ := exists_owner? cwd htask
    obtain ⟨hmem, hshare⟩ := mem_of_owner? howner
    have hfree := contains_find_of_owner? h howner
    refine ⟨owner, ⟨hmem, hfree, hshare⟩, fun other ⟨hother, hotherfree, hothershare⟩ => ?_⟩
    exact eq_of_sharePath h hother hmem hotherfree hfree (hothershare.trans hshare.symm)
  free := fun entry hentry => by
    have hkey : entry.1 ∈ (find cwd tasks).keys := List.mem_map_of_mem hentry
    rw [keys_find cwd h] at hkey
    obtain ⟨task, htask, hname⟩ := List.mem_map.1 hkey
    have hfound : (find cwd tasks).find? task.objectName = some entry.2 := by
      rw [hname]
      exact (OrderedMap.lookup_eq_some_iff_mem (nodup_keys_find cwd h)).2 hentry
    obtain ⟨owner, howner, hsame⟩ :=
      exists_owner_of_find? h (List.mem_of_mem_filter htask) hfound
    rw [← hsame]
    exact contains_find_of_owner? h howner
  keys_eq := by rw [keys_find cwd h, late_eq h]

/-- Tasks that share paths under different spellings; the first task of the directory itself has
the empty name. -/
def contested : List Task :=
  (["a/../b", "b", "c//d", "c/d", "e", "", "."] : List Text).map fun name =>
    ⟨"c", name, "/srv/downloads/" ++ name, .download⟩

theorem find_allots_contested :
    (contested.map Task.objectName).Nodup ∧ Allots [] contested (find [] contested) ∧
      (find [] contested).keys = (["b", "c/d", "."] : List Text) ∧
      (find [] contested).find? "." = some [] := by
  have hnodup : (contested.map Task.objectName).Nodup := by decide +kernel
  exact ⟨hnodup, find_allots [] hnodup, by decide +kernel, by decide +kernel⟩

end Collisions

end BulkTransfer
