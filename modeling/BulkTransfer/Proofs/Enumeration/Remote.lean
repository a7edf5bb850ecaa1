import BulkTransfer.Enumeration.Remote

/-!
# The tasks of a listing

The tasks of listed names are those of the names that stand for no folder (`mem_ofNames_iff`), each
once and in strictly increasing order of names (`pairwise_ofNames`), whatever the order and however
often a name is listed.  An enumeration asks for one listing, under the normalised prefix, and gives
the tasks of what is listed, or what the listing throws (`ofContainer_enumerates`).
-/

namespace BulkTransfer

namespace Enumeration

theorem nodup_eraseDups {α : Type} [BEq α] [LawfulBEq α] (l : List α) : l.eraseDups.Nodup := by
  induction hn : l.length using Nat.strongRecOn generalizing l with
  | ind n ih =>
    cases l with
    | nil => simp
    | cons a rest =>
      have hlt : (rest.filter fun b => !b == a).length < n :=
        hn ▸ Nat.lt_succ_of_le (List.length_filter_le _ _)
      rw [List.eraseDups_cons, List.nodup_cons]
      exact ⟨by simp [List.mem_eraseDups], ih _ hlt _ rfl⟩

/-- Tasks with names of their own are sorted in strictly increasing order of these. -/
theorem pairwise_mergeSort {tasks : List Task} (h : (tasks.map Task.objectName).Nodup) :
    (tasks.mergeSort fun a b => a.objectName ≤ b.objectName).Pairwise fun s t =>
      s.objectName < t.objectName := by
  have hsorted : (tasks.mergeSort fun a b => a.objectName ≤ b.objectName).Pairwise fun s t =>
      s.objectName ≤ t.objectName := by
    have htrans : ∀ a b c : Task, decide (a.objectName ≤ b.objectName) = true →
        decide (b.objectName ≤ c.objectName) = true → decide (a.objectName ≤ c.objectName) = true :=
      fun a b c hab hbc => by simpa using List.le_trans (by simpa using hab) (by simpa using hbc)
    have htotal : ∀ a b : Task,
        (decide (a.objectName ≤ b.objectName) || decide (b.objectName ≤ a.objectName)) = true :=
      fun a b => by simpa using List.le_total a.objectName b.objectName
    have hle := List.pairwise_mergeSort htrans htotal tasks
    simpa using hle
  have hperm := (List.mergeSort_perm tasks fun a b => a.objectName ≤ b.objectName).map
    Task.objectName
  have hne := List.pairwise_map.1 (hperm.symm.nodup h)
  exact hsorted.imp₂ (fun _ _ hle hne => (List.le_iff_lt_or_eq.1 hle).resolve_right hne) hne

variable (container : Text) (directory : Path) (keyPrefix : Text) (names : List Text)

/-- A task of a listing is the task of a listed name that stands for no folder. -/
theorem mem_ofNames_iff {task : Task} :
    task ∈ ofNames container directory keyPrefix names ↔
      ∃ name ∈ names, isFolderMarker name = false ∧
        task = downloadTask container directory keyPrefix name := by
  simp only [ofNames, List.mem_mergeSort, List.mem_map, List.mem_filter, List.mem_eraseDups,
    Bool.not_eq_true', and_assoc]
  exact exists_congr fun name => and_congr_right fun _ => and_congr_right fun _ => eq_comm

/-- The names of the tasks of a listing are strictly increasing. -/
theorem pairwise_ofNames :
    (ofNames container directory keyPrefix names).Pairwise fun s t =>
      s.objectName < t.objectName := by
  refine pairwise_mergeSort ?_
  rw [List.map_map]
  have hid : Task.objectName ∘ downloadTask container directory keyPrefix = id := rfl
  rw [hid, List.map_id]
  exact (nodup_eraseDups names).sublist List.filter_sublist

/-! ## What enumerating a container gives -/

/-- A listing call that notes beside the world what it was asked for. -/
def Lister.noting {σ : Type} (list : Lister σ) : Lister (σ × List (Text × Option Text)) :=
  fun container keyPrefix w =>
    let listed := list container keyPrefix w.1
    ⟨listed.outcome, (listed.world, w.2 ++ [(container, keyPrefix)]), listed.events⟩

/-- Enumerating a container is its listing call, with the names and the error of that converted. -/
theorem ofContainer_eq {σ : Type} (list : Lister σ) (cwd : Path) (container directory : Text)
    (keyPrefix : Option Text) (world : σ) :
    let keys := KeyPrefix.normalize keyPrefix
    let listed := list container (listingPrefix keys) world
    ofContainer list cwd container directory keyPrefix world =
      ⟨(listed.outcome.mapError (cannotListContainer container)).map
        (ofNames container (Path.resolve cwd directory) keys), listed.world, listed.events⟩ := by
  intro keys listed
  simp only [ofContainer, keys, listed]
  split
  · next error herror =>
    rw [herror]
    rfl
  · next names hnames =>
    rw [hnames]
    rfl

theorem listingPrefix_eq (keys : Text) :
    listingPrefix keys = if keys = [] then none else some keys := by
  unfold listingPrefix
  simp only [List.isEmpty_iff]

/-- The local name is what follows the key prefix, or the whole name where it does not begin with
the key prefix. -/
theorem localName_spec (keys name : Text) :
    name = keys ++ localName keys name ∨ ¬ keys <+: name ∧ localName keys name = name := by
  unfold localName
  split
  · next hprefix =>
    obtain ⟨rest, rfl⟩ := List.isPrefixOf_iff_prefix.1 hprefix
    left
    rw [List.drop_left]
  · next hprefix =>
    right
    exact ⟨fun h => hprefix (List.isPrefixOf_iff_prefix.2 h), rfl⟩

theorem isFolderMarker_eq_false_iff (name : Text) :
    isFolderMarker name = false ↔ name.getLast? ≠ some Text.slash := by
  unfold isFolderMarker
  simp

theorem mem_objectNames_ofNames_iff {name : Text} :
    name ∈ (ofNames container directory keyPrefix names).map Task.objectName ↔
      name ∈ names ∧ name.getLast? ≠ some Text.slash := by
  rw [List.mem_map, ← isFolderMarker_eq_false_iff]
  constructor
  · rintro ⟨task, htask, rfl⟩
    obtain ⟨listed, hlisted, hfolder, rfl⟩ := (mem_ofNames_iff _ _ _ _).1 htask
    exact ⟨hlisted, hfolder⟩
  · rintro ⟨hlisted, hfolder⟩
    exact ⟨_, (mem_ofNames_iff _ _ _ _).2 ⟨name, hlisted, hfolder, rfl⟩, rfl⟩

/-- Enumerating a container makes one listing call, with the key prefix in normal form or with none
in place of the empty one.  What the call throws becomes the cause of an enumeration error; the
names it gives become tasks in strictly increasing order, one for each name that stands for no
folder, and each under the destination where its name without the key prefix leads. -/
theorem ofContainer_enumerates {σ : Type} (list : Lister σ) (cwd : Path)
    (container directory : Text) (keyPrefix : Option Text) (world : σ) :
    let keys := KeyPrefix.normalize keyPrefix
    let asked := if keys = [] then none else some keys
    let listed := list container asked world
    let ran := ofContainer list cwd container directory keyPrefix world
    ofContainer list.noting cwd container directory keyPrefix (world, []) =
      ⟨ran.outcome, (listed.world, [(container, asked)]), ran.events⟩ ∧
    ran.world = listed.world ∧ ran.events = listed.events ∧
    match listed.outcome with
    | .error error => ∃ message, ran.outcome = .error (.enumeration message error)
    | .ok names => ∃ tasks, ran.outcome = .ok tasks ∧
      tasks.Pairwise (fun a b => a.objectName < b.objectName) ∧
      (∀ name, name ∈ tasks.map Task.objectName ↔
        name ∈ names ∧ name.getLast? ≠ some Text.slash) ∧
      ∀ task ∈ tasks, task.container = container ∧ task.direction = .download ∧
        ∃ rest, (task.objectName = keys ++ rest ∨
            ¬ keys <+: task.objectName ∧ rest = task.objectName) ∧
          task.localPath = Path.text (Path.join (Path.resolve cwd directory) rest) := by
  intro keys asked listed ran
  have hasked : listingPrefix keys = asked := listingPrefix_eq keys
  have hran : ran = ⟨(listed.outcome.mapError (cannotListContainer container)).map
      (ofNames container (Path.resolve cwd directory) keys), listed.world, listed.events⟩ := by
    show ofContainer list cwd container directory keyPrefix world = _
    rw [ofContainer_eq, hasked]
  rw [ofContainer_eq, hasked, hran]
  refine ⟨rfl, rfl, rfl, ?_⟩
  cases listed.outcome with
  | error error => exact ⟨_, rfl⟩
  | ok names =>
    refine ⟨_, rfl, pairwise_ofNames _ _ _ _, fun name => mem_objectNames_ofNames_iff _ _ _ _, ?_⟩
    intro task htask
    obtain ⟨name, -, -, rfl⟩ := (mem_ofNames_iff _ _ _ _).1 htask
    exact ⟨rfl, rfl, localName keys name, localName_spec keys name, rfl⟩

end Enumeration

end BulkTransfer
