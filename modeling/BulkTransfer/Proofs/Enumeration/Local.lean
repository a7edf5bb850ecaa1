import Mathlib.Data.List.Basic
import BulkTransfer.Enumeration.Local
import BulkTransfer.Proofs.Enumeration.Remote
import BulkTransfer.Proofs.Files.Tree

/-!
# The tasks of a directory

A directory that can be enumerated is found at a place (`exists_found_of_entries`).  Where each
entry stands once under a name, its tasks are those of the names that hold a regular file there,
directly or over a link (`mem_tasks_iff`), each once and in strictly increasing order of object
names (`pairwise_tasks`), and its warnings are those about the links that lead nowhere
(`warningsOf_eq_map`).  So a path is enumerated exactly when it leads to a directory, and the order
in which the directory is listed has no part in the tasks (`ofDirectory_enumerates`).
-/

namespace BulkTransfer

namespace Enumeration

variable {f : Files} {directory : Text} {found : List (Text × Entry)} {place : Path} {name : Text}
  {content : Bytes} {s : Source}

/-- The entries of a directory to which its path leads are those that stand in it. -/
theorem entries_of_stat
    (hstat : f.stat (Path.text (Path.resolve f.cwd directory)) = .ok .directory) :
    ∃ place found, f.locateFor .stat .use (Path.text (Path.resolve f.cwd directory)) = .ok place ∧
      f.entry? place = some .directory ∧ found.Perm (f.children place) ∧
      entries f directory = .ok found := by
  obtain ⟨place, hlocate, hplace⟩ := Files.stat_eq_ok_iff.1 hstat
  have hscan : f.locateFor .scan .use (Path.text (Path.resolve f.cwd directory)) = .ok place :=
    Files.locateFor_iff_locate.2 (Files.locateFor_iff_locate.1 hlocate)
  refine ⟨place, _, hlocate, hplace, List.mergeSort_perm _ fun a b => b.1 ≤ a.1, ?_⟩
  simp only [entries, hstat, Files.scan, hscan, hplace]

theorem entries_of_not_stat
    (hstat : f.stat (Path.text (Path.resolve f.cwd directory)) ≠ .ok .directory) :
    ∃ message cause, entries f directory = .error (.enumeration message cause) := by
  rw [entries]
  split
  · exact ⟨_, _, rfl⟩
  · next hdirectory => exact absurd hdirectory hstat
  · exact ⟨_, _, rfl⟩

/-- A directory that can be enumerated is found at a place, and its entries are what is listed. -/
theorem exists_found_of_entries (hcwd : f.cwd.IsNormal) (h : entries f directory = .ok found) :
    ∃ place, f.Found (Path.resolve f.cwd directory) place ∧
      f.locate .use (Path.text (Path.resolve f.cwd directory)) = .ok place ∧
      found.Perm (f.children place) := by
  by_cases hstat : f.stat (Path.text (Path.resolve f.cwd directory)) = .ok .directory
  · obtain ⟨place, listed, hlocate, hplace, hperm, hentries⟩ := entries_of_stat hstat
    obtain rfl := Except.ok.inj (hentries.symm.trans h)
    exact ⟨place, Files.found_of_locateFor (Path.isNormal_resolve hcwd directory) hlocate hplace,
      (Files.locateFor_iff_locate.1 hlocate).2, hperm⟩
  · obtain ⟨message, cause, hentries⟩ := entries_of_not_stat hstat
    rw [hentries] at h
    cases h

/-- A directory to which its path leads can be enumerated. -/
theorem exists_entries
    (hlocate : f.locateFor .stat .use (Path.text (Path.resolve f.cwd directory)) = .ok place)
    (hplace : f.entry? place = some .directory) : ∃ found, entries f directory = .ok found := by
  obtain ⟨_, found, -, -, -, hentries⟩ :=
    entries_of_stat (Files.stat_eq_ok_iff.2 ⟨place, hlocate, hplace⟩)
  exact ⟨found, hentries⟩

theorem pathOf_of_isName (s : Source) (h : Path.IsName name) :
    s.pathOf name = Path.text (s.directory ++ [name]) := by
  rw [Source.pathOf, Path.join_of_isName s.directory h]

/-- An entry of a directory is to be uploaded when it holds a regular file. -/
theorem isSource_eq_ok_true_iff (hnamed : f.Named) {entry : Entry}
    (hentry : f.entry? (place ++ [name]) = some entry) :
    isSource f (s.pathOf name) entry = .ok true ↔
      ∃ content, f.HoldsFile place s.directory name content := by
  have hpath := pathOf_of_isName s (hnamed.isName hentry)
  cases entry with
  | file content => exact iff_of_true rfl ⟨content, .file hentry⟩
  | directory =>
    exact iff_of_false (by simp [isSource]) fun ⟨_, hfile⟩ =>
      Files.not_holdsFile hentry (by simp) (by simp) hfile
  | special =>
    exact iff_of_false (by simp [isSource]) fun ⟨_, hfile⟩ =>
      Files.not_holdsFile hentry (by simp) (by simp) hfile
  | link target =>
    rw [isSource, hpath]
    constructor
    · intro h
      cases hstat : f.stat (Path.text (s.directory ++ [name])) with
      | error e => simp [hstat] at h
      | ok reached =>
        cases reached with
        | file content => exact ⟨content, .link target hentry hstat⟩
        | directory => simp [hstat] at h
        | link target => simp [hstat] at h
        | special => simp [hstat] at h
    · rintro ⟨content, hfile | ⟨target, hlink, hstat⟩⟩
      · simp [hentry] at hfile
      · simp [hstat]

/-- The tasks that upload what was listed. -/
def tasksOf (f : Files) (s : Source) (found : List (Text × Entry)) : List Task :=
  sorted (found.filterMap (s.task? f))

theorem task?_eq_some_iff {entry : Entry} {task : Task} :
    s.task? f (name, entry) = some task ↔
      isSource f (s.pathOf name) entry = .ok true ∧ s.task name = task := by
  rw [Source.task?]
  split
  · next h => simp [h]
  · next h => exact iff_of_false (by simp) fun hok => h hok.1

theorem mem_tasks_iff (hnamed : f.Named) (hperm : found.Perm (f.children place)) {task : Task} :
    task ∈ tasksOf f s found ↔
      ∃ name content, f.HoldsFile place s.directory name content ∧ task = s.task name := by
  rw [tasksOf, sorted, List.mem_mergeSort, List.mem_filterMap]
  constructor
  · rintro ⟨⟨name, entry⟩, hmem, htask⟩
    have hentry := hnamed.mem_children_iff.1 (hperm.mem_iff.1 hmem)
    obtain ⟨hsource, rfl⟩ := task?_eq_some_iff.1 htask
    obtain ⟨content, hfile⟩ := (isSource_eq_ok_true_iff hnamed hentry).1 hsource
    exact ⟨name, content, hfile, rfl⟩
  · rintro ⟨name, content, hfile, rfl⟩
    obtain ⟨entry, hentry⟩ := hfile.exists_entry?
    exact ⟨(name, entry), hperm.mem_iff.2 (hnamed.mem_children_iff.2 hentry),
      task?_eq_some_iff.2 ⟨(isSource_eq_ok_true_iff hnamed hentry).2 ⟨content, hfile⟩, rfl⟩⟩

theorem objectName_injective (keyPrefix : Option Text) {a b : Text}
    (h : KeyPrefix.objectName keyPrefix a = KeyPrefix.objectName keyPrefix b) : a = b :=
  List.append_cancel_left h

/-- What is made of the entries of a directory is told apart by what tells their names apart. -/
theorem nodup_filterMap {α β : Type} {g : Text × Entry → Option α} {key : α → β}
    (hnamed : f.Named) (hperm : found.Perm (f.children place))
    (hkey : ∀ a b x y, g a = some x → g b = some y → key x = key y → a.1 = b.1) :
    ((found.filterMap g).map key).Nodup := by
  have hnames := (hperm.map Prod.fst).symm.nodup (hnamed.nodup_children place)
  apply List.pairwise_map.2
  apply List.pairwise_filterMap.2
  refine (List.pairwise_map.1 hnames).imp ?_
  intro a b hne x hx y hy hsame
  exact hne (hkey a b x y hx hy hsame)

theorem pairwise_tasks (hnamed : f.Named) (hperm : found.Perm (f.children place)) :
    (tasksOf f s found).Pairwise fun a b => a.objectName < b.objectName := by
  refine pairwise_mergeSort (nodup_filterMap hnamed hperm fun a b x y hx hy hsame => ?_)
  obtain ⟨-, rfl⟩ := task?_eq_some_iff.1 hx
  obtain ⟨-, rfl⟩ := task?_eq_some_iff.1 hy
  exact objectName_injective s.keyPrefix hsame

/-- In whatever order the entries of a directory are listed, its tasks come in the same order. -/
theorem tasksOf_eq_of_perm (hnamed : f.Named) {listing : List (Text × Entry)}
    (hperm : found.Perm (f.children place)) (hlisting : listing.Perm (f.children place)) :
    tasksOf f s listing = tasksOf f s found := by
  have hsame : (tasksOf f s listing).Perm (tasksOf f s found) := by
    apply (List.mergeSort_perm _ _).trans
    apply List.Perm.trans _ (List.mergeSort_perm _ _).symm
    exact (hlisting.trans hperm.symm).filterMap _
  apply hsame.eq_of_pairwise _ (pairwise_tasks hnamed hlisting) (pairwise_tasks hnamed hperm)
  intro a b _ _ hab hba
  exact absurd (List.lt_trans hab hba) (List.lt_irrefl _)

/-! ## Links that lead nowhere -/

/-- A name in the directory at a place stands for a link, and following it from its path fails. -/
def Dangles (f : Files) (place directory : Path) (name : Text) (e : FileError) : Prop :=
  (∃ target, f.entry? (place ++ [name]) = some (.link target)) ∧
    f.stat (Path.text (directory ++ [name])) = .error e

/-- The name of an entry with the error of following it, if it leads nowhere. -/
def Source.broken? (s : Source) (f : Files) (entry : Text × Entry) : Option (Text × FileError) :=
  match isSource f (s.pathOf entry.1) entry.2 with
  | .ok _ => none
  | .error e => some (entry.1, e)

/-- The warnings about what was listed. -/
def warningsOf (f : Files) (s : Source) (found : List (Text × Entry)) : List Event :=
  found.filterMap (s.warning? f)

theorem isSource_eq_error_iff {path : Text} {entry : Entry} {e : FileError} :
    isSource f path entry = .error e ↔
      (∃ target, entry = .link target) ∧ f.stat path = .error e := by
  unfold isSource
  cases entry with
  | file content => simp
  | directory => simp
  | special => simp
  | link target =>
    cases hstat : f.stat path with
    | error e' => simp
    | ok reached => cases reached <;> simp

theorem broken?_eq_some_iff {entry : Entry} {b : Text × FileError} :
    s.broken? f (name, entry) = some b ↔
      name = b.1 ∧ isSource f (s.pathOf name) entry = .error b.2 := by
  unfold Source.broken?
  obtain ⟨other, e⟩ := b
  cases isSource f (s.pathOf name) entry <;> simp

theorem mem_broken_iff (hnamed : f.Named) (hperm : found.Perm (f.children place)) {e : FileError} :
    (name, e) ∈ found.filterMap (s.broken? f) ↔ Dangles f place s.directory name e := by
  rw [List.mem_filterMap]
  constructor
  · rintro ⟨⟨other, entry⟩, hmem, hbroken⟩
    obtain ⟨rfl, herror⟩ := broken?_eq_some_iff.1 hbroken
    have hentry := hnamed.mem_children_iff.1 (hperm.mem_iff.1 hmem)
    obtain ⟨⟨target, rfl⟩, hstat⟩ := isSource_eq_error_iff.1 herror
    rw [pathOf_of_isName s (hnamed.isName hentry)] at hstat
    exact ⟨⟨target, hentry⟩, hstat⟩
  · rintro ⟨⟨target, hentry⟩, hstat⟩
    rw [← pathOf_of_isName s (hnamed.isName hentry)] at hstat
    refine ⟨(name, .link target), hperm.mem_iff.2 (hnamed.mem_children_iff.2 hentry), ?_⟩
    exact broken?_eq_some_iff.2 ⟨rfl, isSource_eq_error_iff.2 ⟨⟨target, rfl⟩, hstat⟩⟩

theorem nodup_broken (hnamed : f.Named) (hperm : found.Perm (f.children place)) :
    ((found.filterMap (s.broken? f)).map Prod.fst).Nodup := by
  refine nodup_filterMap hnamed hperm fun a b x y hx hy hsame => ?_
  rw [(broken?_eq_some_iff.1 hx).1, (broken?_eq_some_iff.1 hy).1, hsame]

theorem warningsOf_eq_map (hnamed : f.Named) (hperm : found.Perm (f.children place)) :
    warningsOf f s found = (found.filterMap (s.broken? f)).map fun b =>
      skipped (Path.text (s.directory ++ [b.1])) b.2 := by
  unfold warningsOf
  rw [List.map_filterMap]
  apply List.filterMap_congr
  rintro ⟨name, entry⟩ hmem
  have hentry := hnamed.mem_children_iff.1 (hperm.mem_iff.1 hmem)
  have hpath := pathOf_of_isName s (hnamed.isName hentry)
  unfold Source.warning? Source.broken?
  cases isSource f (s.pathOf name) entry with
  | ok _ => rfl
  | error e => simp [hpath]

/-! ## What enumerating a directory gives -/

/-- These are the tasks and the events that are due for a directory at a place: a task for each name
that holds a regular file, in strictly increasing order of object names, and a warning for each link
that leads nowhere. -/
structure Enumerated (f : Files) (s : Source) (place : Path) (tasks : List Task)
    (events : List Event) : Prop where
  mem_iff : ∀ task, task ∈ tasks ↔ ∃ name content, f.HoldsFile place s.directory name content ∧
    task = ⟨s.container, KeyPrefix.normalize s.keyPrefix ++ name,
      Path.text (s.directory ++ [name]), .upload⟩
  increasing : tasks.Pairwise fun a b => a.objectName < b.objectName
  warnings : ∃ broken : List (Text × FileError), (broken.map Prod.fst).Nodup ∧
    (∀ name e, (name, e) ∈ broken ↔ Dangles f place s.directory name e) ∧
    events = broken.map fun b => skipped (Path.text (s.directory ++ [b.1])) b.2

theorem enumerated_of_perm (hnamed : f.Named) (hperm : found.Perm (f.children place)) :
    Enumerated f s place (tasksOf f s found) (warningsOf f s found) where
  mem_iff := fun task => by
    rw [mem_tasks_iff hnamed hperm]
    refine exists_congr fun name => exists_congr fun content => and_congr_right fun hfile => ?_
    obtain ⟨entry, hentry⟩ := hfile.exists_entry?
    have hpath := pathOf_of_isName s (hnamed.isName hentry)
    rw [← hpath]
    rfl
  increasing := pairwise_tasks hnamed hperm
  warnings := ⟨_, nodup_broken hnamed hperm, fun _ _ => mem_broken_iff hnamed hperm,
    warningsOf_eq_map hnamed hperm⟩

/-- A path that leads to a directory gives the tasks of what is listed there. -/
theorem ofDirectory_of_stat {σ : Type} (container : Text) (keyPrefix : Option Text) (world : σ)
    (hstat : f.stat (Path.text (Path.resolve f.cwd directory)) = .ok .directory) :
    ∃ place found, f.locate .use (Path.text (Path.resolve f.cwd directory)) = .ok place ∧
      f.entry? place = some .directory ∧ found.Perm (f.children place) ∧
      ofDirectory f container directory keyPrefix world =
        let s : Source := ⟨container, Path.resolve f.cwd directory, keyPrefix⟩
        ⟨.ok (tasksOf f s found), world, warningsOf f s found⟩ := by
  obtain ⟨place, found, hlocate, hplace, hperm, hentries⟩ := entries_of_stat hstat
  refine ⟨place, found, (Files.locateFor_iff_locate.1 hlocate).2, hplace, hperm, ?_⟩
  unfold ofDirectory
  rw [hentries]
  rfl

/-- Enumerating the directory that a path leads to gives its tasks and its warnings, whatever the
order in which its entries are listed; a path that leads to none is refused with an enumeration
error. -/
theorem ofDirectory_enumerates {σ : Type} (hnamed : f.Named) (container directory : Text)
    (keyPrefix : Option Text) (world : σ) :
    let path := Path.resolve f.cwd directory
    let s : Source := ⟨container, path, keyPrefix⟩
    let ran := ofDirectory f container directory keyPrefix world
    ((∃ tasks, ran.outcome = .ok tasks) ↔ f.stat (Path.text path) = .ok .directory) ∧
    (f.stat (Path.text path) ≠ .ok .directory →
      ∃ message cause, ran = .throw (.enumeration message cause) world) ∧
    ∀ tasks, ran.outcome = .ok tasks → ∃ place,
      f.locate .use (Path.text path) = .ok place ∧ f.entry? place = some .directory ∧
      Enumerated f s place tasks ran.events ∧ ran.world = world ∧
      ∀ listing, listing.Perm (f.children place) →
        tasksOf f s listing = tasks ∧ (warningsOf f s listing).Perm ran.events := by
  intro path s ran
  by_cases hstat : f.stat (Path.text path) = .ok .directory
  · obtain ⟨place, found, hlocate, hplace, hperm, hran⟩ :=
      ofDirectory_of_stat container keyPrefix world hstat
    have hout : ran.outcome = .ok (tasksOf f s found) := congrArg (·.outcome) hran
    have hevents : ran.events = warningsOf f s found := congrArg (·.events) hran
    refine ⟨iff_of_true ⟨_, hout⟩ hstat, fun hnot => absurd hstat hnot, fun tasks htasks => ?_⟩
    obtain rfl : tasksOf f s found = tasks := Except.ok.inj (hout.symm.trans htasks)
    refine ⟨place, hlocate, hplace, ?_, congrArg (·.world) hran, fun listing hlisting => ?_⟩
    · rw [hevents]
      exact enumerated_of_perm hnamed hperm
    · refine ⟨tasksOf_eq_of_perm hnamed hperm hlisting, ?_⟩
      rw [hevents]
      exact (hlisting.trans hperm.symm).filterMap _
  · obtain ⟨message, cause, hentries⟩ := entries_of_not_stat hstat
    have hran : ran = .throw (.enumeration message cause) world := by
      show ofDirectory f container directory keyPrefix world = _
      unfold ofDirectory
      rw [hentries]
    have hnone : ¬ ∃ tasks, ran.outcome = .ok tasks := by
      rw [hran]
      rintro ⟨tasks, htasks⟩
      cases htasks
    exact ⟨iff_of_false hnone hstat, fun _ => ⟨message, cause, hran⟩,
      fun tasks htasks => absurd ⟨tasks, htasks⟩ hnone⟩

/-- A directory with entries of each kind, and links that lead to a file, over another link,
nowhere, to themselves, through a file and to a directory. -/
def mixedFiles : Files :=
  ⟨["src"], .ofList [(["src"], .directory), (["src", "a"], .file [1]), (["src", "b"], .link "a"),
    (["src", "c"], .link "b"), (["src", "d"], .link "none"), (["src", "e"], .link "e"),
    (["src", "f"], .link "a/x"), (["src", "g"], .directory), (["src", "h"], .link "g"),
    (["src", "i"], .special), (["src", [0xD83D, 0xDE00]], .file []), (["src", [0xFF5E]], .file [])]⟩

/-- The tasks and the warnings of a directory with entries of each kind; a name outside the basic
plane comes before one at its end. -/
theorem ofDirectory_enumerates_mixed :
    let ran := ofDirectory mixedFiles "c" "." (some "p") ()
    mixedFiles.Named ∧
      ran.outcome = .ok (([("a" : Text), "b", "c", [0xD83D, 0xDE00], [0xFF5E]]).map fun name =>
        ⟨"c", "p/" ++ name, "/src/" ++ name, .upload⟩) ∧
      ran.events.Perm [skipped "/src/d" (.failed .noEntry .stat (some "/src/d")),
        skipped "/src/e" (.failed .linkLoop .stat (some "/src/e")),
        skipped "/src/f" (.failed .notDirectory .stat (some "/src/f"))] := by
  intro ran
  let s : Source := ⟨"c", ["src"], some "p"⟩
  have htree : mixedFiles.Tree := by decide +kernel
  obtain ⟨hiff, -, hlists⟩ := ofDirectory_enumerates htree.toNamed "c" "." (some "p") ()
  obtain ⟨tasks, htasks⟩ := hiff.2 rfl
  obtain ⟨place, hlocate, -, -, -, horder⟩ := hlists tasks htasks
  obtain rfl : (["src"] : Path) = place := Except.ok.inj hlocate
  -- The entries were put in the order of their names, so that there is nothing left to sort.
  obtain ⟨hsame, hevents⟩ := horder (mixedFiles.children ["src"]) (.refl _)
  have hsorted : tasksOf mixedFiles s (mixedFiles.children ["src"]) =
      (mixedFiles.children ["src"]).filterMap (s.task? mixedFiles) :=
    List.mergeSort_of_pairwise (by decide +kernel)
  refine ⟨htree.toNamed, ?_, hevents.symm.trans (.of_eq (by decide +kernel))⟩
  rw [htasks, ← hsame]
  exact congrArg _ (hsorted.trans (by decide +kernel))

end Enumeration

end BulkTransfer
