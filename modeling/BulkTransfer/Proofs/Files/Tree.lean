import Mathlib.Data.List.Induction
import BulkTransfer.Proofs.Files.Straight

/-!
# File trees

Files as a file system keeps them form a tree (`Tree`): each entry stands once, under a file name,
in a directory.  Where each entry stands once under a name, the names that a directory lists are
those of the entries in it (`Named.mem_children_iff`).  In a tree a directory that is found by its
path finds the files in it as well, as far as their paths are not overlong (`read_eq_ok_iff`).
-/

namespace BulkTransfer

namespace Files

/-- A name as a file system keeps it. -/
structure IsFileName (name : Text) : Prop where
  isName : Path.IsName name
  stored : Text.stored name = name
  short : isTooLong name = false
  usable : (0 : UInt16) ∉ name

instance (name : Text) : Decidable (IsFileName name) :=
  decidable_of_iff (Path.IsName name ∧ Text.stored name = name ∧ isTooLong name = false ∧
      (0 : UInt16) ∉ name)
    ⟨fun ⟨hname, hstored, hshort, husable⟩ => ⟨hname, hstored, hshort, husable⟩,
      fun h => ⟨h.isName, h.stored, h.short, h.usable⟩⟩

/-- Each entry stands once, under a name. -/
structure Named (f : Files) : Prop where
  nodup : f.entries.keys.Nodup
  isName : ∀ {directory : Path} {name : Text} {entry : Entry},
    f.entry? (directory ++ [name]) = some entry → Path.IsName name

/-- Each entry stands once, under a file name, in a directory. -/
structure Tree (f : Files) : Prop where
  nodup : f.entries.keys.Nodup
  named : ∀ path ∈ f.entries.keys, ∃ directory name, path = directory ++ [name] ∧
    IsFileName name ∧ f.entry? directory = some .directory

variable {f : Files} {directory place : Path} {name t : Text} {entry : Entry} {content : Bytes}

theorem tree_iff : f.Tree ↔ f.entries.keys.Nodup ∧ ∀ path ∈ f.entries.keys,
    path ≠ [] ∧ IsFileName (path.getLastD []) ∧ f.entry? path.dropLast = some .directory := by
  constructor
  · refine fun h => ⟨h.nodup, fun path hpath => ?_⟩
    obtain ⟨directory, name, rfl, hname, hdirectory⟩ := h.named path hpath
    rw [List.getLastD_concat, List.dropLast_concat]
    exact ⟨by simp, hname, hdirectory⟩
  · refine fun ⟨hnodup, h⟩ => ⟨hnodup, fun path hpath => ?_⟩
    obtain ⟨hne, hname, hdirectory⟩ := h path hpath
    refine ⟨path.dropLast, path.getLastD [], ?_, hname, hdirectory⟩
    rw [List.getLastD_eq_getLast?, List.getLast?_eq_some_getLast hne]
    exact (List.dropLast_concat_getLast hne).symm

instance (f : Files) : Decidable f.Tree := decidable_of_iff _ tree_iff.symm

/-! ## Entries of a directory -/

theorem find?_eq_some_iff (h : f.entries.keys.Nodup) {path : Path} :
    f.entries.find? path = some entry ↔ (path, entry) ∈ f.entries.pairs :=
  OrderedMap.lookup_eq_some_iff_mem h

theorem child_eq_some_iff {item : Path × Entry} {child : Text × Entry} :
    (match item.1.getLast? with
      | some name => if item.1.dropLast = place then some (name, item.2) else none
      | none => none) = some child ↔ item = (place ++ [child.1], child.2) := by
  obtain ⟨path, found⟩ := item
  obtain ⟨name, entry⟩ := child
  rcases List.eq_nil_or_concat path with rfl | ⟨directory, other, rfl⟩
  · simp
  · rw [List.concat_eq_append, List.getLast?_concat, List.dropLast_concat]
    by_cases hd : directory = place
    · simp [hd]
    · simp [hd]

namespace Named

/-- A directory lists the names of the entries in it. -/
theorem mem_children_iff (h : f.Named) :
    (name, entry) ∈ f.children place ↔ f.entry? (place ++ [name]) = some entry := by
  rw [entry?_of_ne_nil f (by simp), find?_eq_some_iff h.nodup, children, List.mem_filterMap]
  constructor
  · rintro ⟨item, hmem, hchild⟩
    obtain rfl := child_eq_some_iff.1 hchild
    exact hmem
  · exact fun hmem => ⟨_, hmem, by simp⟩

theorem nodup_children (h : f.Named) (place : Path) :
    ((f.children place).map Prod.fst).Nodup := by
  have hpairs := List.pairwise_map.1 h.nodup
  refine List.pairwise_map.2 (List.pairwise_filterMap.2 (hpairs.imp ?_))
  intro a b hne x hx y hy hsame
  rw [child_eq_some_iff.1 hx, child_eq_some_iff.1 hy, hsame] at hne
  exact hne rfl

end Named

namespace Tree

theorem mem_keys (h : f.Tree) {path : Path} (hentry : f.entry? path = some entry)
    (hpath : path ≠ []) : path ∈ f.entries.keys := by
  rw [entry?_of_ne_nil f hpath, find?_eq_some_iff h.nodup] at hentry
  exact List.mem_map_of_mem hentry

theorem closed (h : f.Tree) : f.Closed := by
  intro path hd
  by_cases hpath : path = []
  · subst hpath
    rfl
  · obtain ⟨directory, name, rfl, -, hdirectory⟩ := h.named path (h.mem_keys hd hpath)
    rwa [List.dropLast_concat]

theorem isFileName (h : f.Tree) (hentry : f.entry? (place ++ [name]) = some entry) :
    IsFileName name := by
  obtain ⟨directory, other, heq, hname, -⟩ := h.named _ (h.mem_keys hentry (by simp))
  obtain ⟨-, hsame⟩ := List.append_inj' heq rfl
  rwa [List.singleton_inj.1 hsame]

theorem toNamed (h : f.Tree) : f.Named := ⟨h.nodup, fun hentry => (h.isFileName hentry).isName⟩

/-- Above every entry there are directories. -/
theorem directory_of_append (h : f.Tree) {p q : Path} (hentry : f.entry? (p ++ q) = some entry)
    (hq : q ≠ []) : f.entry? p = some .directory := by
  induction q using List.reverseRecOn generalizing entry with
  | nil => exact absurd rfl hq
  | append_singleton q name ih =>
    obtain ⟨directory, other, heq, -, hdirectory⟩ := h.named _ (h.mem_keys hentry (by simp))
    rw [← List.append_assoc] at heq
    obtain ⟨rfl, -⟩ := List.append_inj' heq rfl
    by_cases hnil : q = []
    · rwa [hnil, List.append_nil] at hdirectory
    · exact ih hdirectory hnil

end Tree

/-! ## Reading the files of a directory -/

/-- A name in the directory at a place stands for a regular file with some content, itself or over a
link, which is followed from its path. -/
inductive HoldsFile (f : Files) (place : Path) (directory : Path) (name : Text) (content : Bytes) :
    Prop
  | file (h : f.entry? (place ++ [name]) = some (.file content))
  | link (target : Text) (h : f.entry? (place ++ [name]) = some (.link target))
    (hstat : f.stat (Path.text (directory ++ [name])) = .ok (.file content))

theorem HoldsFile.exists_entry? (h : f.HoldsFile place directory name content) :
    ∃ entry, f.entry? (place ++ [name]) = some entry := by
  cases h with
  | file h => exact ⟨_, h⟩
  | link target h => exact ⟨_, h⟩

theorem HoldsFile.isFileName (htree : f.Tree) (h : f.HoldsFile place directory name content) :
    IsFileName name :=
  let ⟨_, hentry⟩ := h.exists_entry?
  htree.isFileName hentry

/-- What is neither a regular file nor a link holds none. -/
theorem not_holdsFile (hentry : f.entry? (place ++ [name]) = some entry)
    (hfile : ∀ content, entry ≠ .file content) (hlink : ∀ target, entry ≠ .link target) :
    ¬ f.HoldsFile place directory name content := by
  intro h
  cases h with
  | file h => exact hfile content (Option.some.inj (hentry.symm.trans h))
  | link target h => exact hlink target (Option.some.inj (hentry.symm.trans h))

theorem stat_eq_ok_iff :
    f.stat t = .ok entry ↔
      ∃ place, f.locateFor .stat .use t = .ok place ∧ f.entry? place = some entry := by
  rw [stat]
  cases f.locateFor .stat .use t with
  | error e => exact iff_of_false (fun h => by cases h) fun ⟨_, h, _⟩ => by cases h
  | ok place =>
    simp only [Except.ok.injEq, exists_eq_left']
    cases f.entry? place with
    | none => exact iff_of_false (fun h => by cases h) fun h => by cases h
    | some found => simp

theorem read_of_locateFor (h : f.locateFor .openFile .use t = .ok place)
    (hentry : f.entry? place = some (.file content)) : f.read t = .ok content := by
  simp only [read, h, hentry]

theorem fits_of_read {p : Path} (hp : p.IsNormal) (h : f.read (Path.text p) = .ok content) :
    Fits p := by
  rw [read] at h
  cases hl : f.locateFor .openFile .use (Path.text p) with
  | error e => simp [hl] at h
  | ok place => exact ((locateFor_eq_ok_iff .openFile hp).1 hl).1

/-- The path of a directory leads to a place, where it stands. -/
structure Found (f : Files) (directory place : Path) : Prop where
  normal : directory.IsNormal
  usable : isUsable (Path.text directory) = true
  leads : ∃ n ≤ linkLimit, Leads f [] (directory.map Text.stored) n place
  entry : f.entry? place = some .directory

theorem found_of_locateFor {call : FileCall} (hdirectory : directory.IsNormal)
    (hlocate : f.locateFor call .use (Path.text directory) = .ok place)
    (hplace : f.entry? place = some .directory) : f.Found directory place := by
  obtain ⟨hfits, left, hfollow⟩ := (locateFor_eq_ok_iff call hdirectory).1 hlocate
  rw [← List.append_nil (directory.map Text.stored)] at hfollow
  obtain ⟨n, fuel, middle, hleads, hfuel, hrest⟩ := exists_leads_of_follow hfollow (.inr hplace)
  cases fuel with
  | zero => cases hrest
  | succ fuel =>
    cases hrest
    exact ⟨hdirectory, hfits.usable, ⟨n, by omega, hleads⟩, hplace⟩

theorem isUsable_append (h : isUsable (Path.text directory) = true)
    (hname : (0 : UInt16) ∉ name) : isUsable (Path.text (directory ++ [name])) = true := by
  obtain ⟨start, htext, hstart⟩ :=
    Path.exists_text_append directory (q := [name]) (List.cons_ne_nil _ _)
  have hslash : (0 : UInt16) ∉ Path.text [name] := by
    rw [Path.text_singleton, List.mem_cons, not_or]
    exact ⟨by decide +kernel, hname⟩
  rw [isUsable_iff] at h ⊢
  rw [htext, List.mem_append, not_or]
  refine ⟨?_, hslash⟩
  rcases hstart with hstart | ⟨rfl, -⟩
  · rwa [← hstart]
  · exact List.not_mem_nil

namespace Found

variable (h : f.Found directory place)
include h

theorem normal_append (hname : IsFileName name) : Path.IsNormal (directory ++ [name]) :=
  h.normal.append fun _ hother => List.mem_singleton.1 hother ▸ hname.isName

/-- In a directory that is found a name is found, unless a link stands there or the path is
overlong. -/
theorem locateFor_append (hname : IsFileName name)
    (hlink : ∀ target, f.entry? (place ++ [name]) ≠ some (.link target)) (call : FileCall)
    (aim : Aim) :
    f.locateFor call aim (Path.text (directory ++ [name])) =
      if isOverlong (Path.text (directory ++ [name])) then
        .error (.failed .nameTooLong call (some (Path.text (directory ++ [name]))))
      else .ok (place ++ [name]) := by
  obtain ⟨n, hn, hleads⟩ := h.leads
  rw [locateFor_of_leads (h.normal_append hname) hn hleads (by rwa [hname.stored]),
    if_pos (isUsable_append h.usable hname.usable), hname.stored]
  simp [hname.short]

/-- A regular file in a directory that is found is read by its path. -/
theorem read (hname : IsFileName name)
    (hshort : isOverlong (Path.text (directory ++ [name])) = false)
    (hentry : f.entry? (place ++ [name]) = some (.file content)) :
    f.read (Path.text (directory ++ [name])) = .ok content := by
  have hlocate := h.locateFor_append hname (fun target => by simp [hentry]) .openFile .use
  rw [if_neg (by simp [hshort])] at hlocate
  exact read_of_locateFor hlocate hentry

/-- A directory that is found gives the files in it, unless their paths are overlong. -/
theorem read_eq_ok_iff (htree : f.Tree) (hfile : f.HoldsFile place directory name content) :
    f.read (Path.text (directory ++ [name])) = .ok content ↔
      isOverlong (Path.text (directory ++ [name])) = false := by
  cases hfile with
  | file hentry =>
    have hname := htree.isFileName hentry
    exact ⟨fun hread => (fits_of_read (h.normal_append hname) hread).short,
      fun hshort => h.read hname hshort hentry⟩
  | link target hentry hstat =>
    have hnormal := h.normal_append (htree.isFileName hentry)
    obtain ⟨reached, hlocate, hreached⟩ := stat_eq_ok_iff.1 hstat
    have hway := (locateFor_eq_ok_iff .stat hnormal).1 hlocate
    exact iff_of_true
      (read_of_locateFor ((locateFor_eq_ok_iff .openFile hnormal).2 hway) hreached) hway.1.short

theorem exists_read_iff (htree : f.Tree) (hfile : f.HoldsFile place directory name content) :
    (∃ found, f.read (Path.text (directory ++ [name])) = .ok found) ↔
      isOverlong (Path.text (directory ++ [name])) = false := by
  refine ⟨fun ⟨_, hread⟩ => ?_, fun hshort => ⟨_, (h.read_eq_ok_iff htree hfile).2 hshort⟩⟩
  exact (fits_of_read (h.normal_append (hfile.isFileName htree)) hread).short

end Found

end Files

end BulkTransfer
