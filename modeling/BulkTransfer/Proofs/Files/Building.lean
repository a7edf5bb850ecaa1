import BulkTransfer.Proofs.Files.Leading
import BulkTransfer.Proofs.Files.Plain
import BulkTransfer.Proofs.Path.Parent

/-!
# What making directories and writing files leaves

Making directories and writing files only adds directories where nothing stood and sets regular
files where nothing else stands (`Change`, `Builds`); directories, links and special entries stay.
The directory that was made for a file is where the file's path leads (`leads_of_descend`), and the
content goes to the place where the path leads when the file is opened (`of_writeUnder`).
-/

namespace BulkTransfer

namespace Files

/-- How what stands at a path may change: a directory is made where nothing stands, or a regular
file is set. -/
inductive Change (made written : Prop) : Option Entry → Option Entry → Prop
  | same (entry : Option Entry) : Change made written entry entry
  | made (h : made) : Change made written none (some .directory)
  | created (h : written) (content : Bytes) : Change made written none (some (.file content))
  | replaced (h : written) (old content : Bytes) :
    Change made written (some (.file old)) (some (.file content))

/-- Other files came from these by making directories and setting regular files at some paths. -/
structure Builds (made written : Path → Prop) (f g : Files) : Prop where
  cwd : g.cwd = f.cwd
  change : ∀ path, Change (made path) (written path) (f.entry? path) (g.entry? path)

variable {f g h : Files} {made written : Path → Prop} {path : Path}

/-! ## Changes -/

theorem Change.trans {made written : Prop} {a b c : Option Entry} (hab : Change made written a b)
    (hbc : Change made written b c) : Change made written a c := by
  cases hab with
  | same => exact hbc
  | made hm => cases hbc; exact .made hm
  | created hw content => cases hbc <;> exact .created hw _
  | replaced hw old content => cases hbc <;> exact .replaced hw _ _

theorem Change.mono {made written made' written' : Prop} {a b : Option Entry}
    (hab : Change made written a b) (hm : made → made') (hw : written → written') :
    Change made' written' a b := by
  cases hab with
  | same => exact .same _
  | made h => exact .made (hm h)
  | created h content => exact .created (hw h) content
  | replaced h old content => exact .replaced (hw h) old content

namespace Builds

theorem refl (made written : Path → Prop) (f : Files) : Builds made written f f :=
  ⟨rfl, fun _ => .same _⟩

theorem trans (hfg : Builds made written f g) (hgh : Builds made written g h) :
    Builds made written f h :=
  ⟨hgh.cwd.trans hfg.cwd, fun path => (hfg.change path).trans (hgh.change path)⟩

theorem mono {made' written' : Path → Prop} (hfg : Builds made written f g)
    (hm : ∀ path, made path → made' path) (hw : ∀ path, written path → written' path) :
    Builds made' written' f g :=
  ⟨hfg.cwd, fun path => (hfg.change path).mono (hm path) (hw path)⟩

theorem directory (hfg : Builds made written f g) (hd : f.entry? path = some .directory) :
    g.entry? path = some .directory := by
  have hchange := hfg.change path
  rw [hd] at hchange
  generalize g.entry? path = after at hchange
  cases hchange
  rfl

theorem link {target : Text} (hfg : Builds made written f g)
    (hl : f.entry? path = some (.link target)) : g.entry? path = some (.link target) := by
  have hchange := hfg.change path
  rw [hl] at hchange
  generalize g.entry? path = after at hchange
  cases hchange
  rfl

theorem link_iff {target : Text} (hfg : Builds made written f g) :
    g.entry? path = some (.link target) ↔ f.entry? path = some (.link target) := by
  refine ⟨fun hl => ?_, hfg.link⟩
  have hchange := hfg.change path
  rw [hl] at hchange
  generalize f.entry? path = before at hchange
  cases hchange
  rfl

/-- Nothing is removed. -/
theorem eq_none (hfg : Builds made written f g) (hn : g.entry? path = none) :
    f.entry? path = none := by
  have hchange := hfg.change path
  rw [hn] at hchange
  generalize f.entry? path = before at hchange
  cases hchange
  rfl

/-- A directory where nothing stood was made. -/
theorem made_of_directory (hfg : Builds made written f g) (hbefore : f.entry? path = none)
    (hafter : g.entry? path = some .directory) : made path := by
  have hchange := hfg.change path
  rw [hbefore, hafter] at hchange
  cases hchange
  assumption

/-- A regular file that differs was set. -/
theorem written_of_file (hfg : Builds made written f g) {content : Bytes}
    (hafter : g.entry? path = some (.file content))
    (hbefore : f.entry? path ≠ some (.file content)) : written path := by
  have hchange := hfg.change path
  rw [hafter] at hchange
  generalize f.entry? path = before at hchange hbefore
  cases hchange with
  | same => exact absurd rfl hbefore
  | created h => exact h
  | replaced h => exact h

/-- Away from the written paths the regular files are the same. -/
theorem file_iff (hfg : Builds made written f g) (haway : ¬ written path) (content : Bytes) :
    g.entry? path = some (.file content) ↔ f.entry? path = some (.file content) := by
  constructor
  · intro hafter
    exact Decidable.byContradiction fun hbefore => haway (hfg.written_of_file hafter hbefore)
  · intro hbefore
    have hchange := hfg.change path
    rw [hbefore] at hchange
    generalize g.entry? path = after at hchange
    cases hchange with
    | same => rfl
    | replaced h => exact absurd h haway

theorem leads (hfg : Builds made written f g) {base place : Path} {names : List Text} {n : Nat}
    (hl : Leads f base names n place) : Leads g base names n place :=
  hl.mono hfg.directory hfg.link

end Builds

/-! ## Setting entries -/

theorem builds_set {entry : Entry}
    (hchange : Change (made path) (written path) (f.entry? path) (some entry)) :
    Builds made written f (f.set path entry) := by
  refine ⟨rfl, fun other => ?_⟩
  by_cases hother : other = path
  · subst hother
    by_cases hnil : other = []
    · subst hnil
      exact .same _
    · rwa [entry?_set_self f hnil]
  · rw [entry?_set_of_ne f hother]
    exact .same _

theorem builds_set_directory (hnone : f.entry? path = none) (hmade : made path) :
    Builds made written f (f.set path .directory) :=
  builds_set (hnone ▸ .made hmade)

theorem builds_set_file {content : Bytes}
    (hentry : f.entry? path = none ∨ ∃ old, f.entry? path = some (.file old))
    (hwritten : written path) : Builds made written f (f.set path (.file content)) := by
  rcases hentry with hnone | ⟨old, hold⟩
  · exact builds_set (hnone ▸ .created hwritten content)
  · exact builds_set (hold ▸ .replaced hwritten old content)

theorem closed_set {entry : Entry} (hclosed : f.Closed) (hd : f.entry? path ≠ some .directory)
    (hentry : entry = .directory → f.entry? path.dropLast = some .directory) :
    (f.set path entry).Closed := by
  have hpath : path ≠ [] := ne_nil_of_not_directory hd
  -- A directory is no place where anything was set, so it still holds what it held.
  have hstays : ∀ {other}, f.entry? other = some .directory →
      Files.entry? (f.set path entry) other = some .directory := by
    intro other hother
    have hne : other ≠ path := fun e => hd (by rwa [← e])
    rwa [entry?_set_of_ne f hne]
  intro other hother
  by_cases heq : other = path
  · subst heq
    rw [entry?_set_self f hpath] at hother
    exact hstays (hentry (Option.some.inj hother))
  · rw [entry?_set_of_ne f heq] at hother
    exact hstays (hclosed other hother)

theorem closed_of_entries
    (h : ∀ x ∈ f.entries.pairs, x.2 = .directory → f.entry? x.1.dropLast = some .directory) :
    f.Closed := by
  intro path hd
  by_cases hpath : path = []
  · subst hpath
    rfl
  · rw [entry?_of_ne_nil f hpath, OrderedMap.find?, List.lookup_eq_some_iff] at hd
    obtain ⟨before, after, hpairs, -⟩ := hd
    exact h (path, .directory) (by simp [hpairs]) rfl

/-! ## Making directories -/

theorem builds_descend (written : Path → Prop) (f : Files) (links : Nat) (base : Path)
    (rest : List Text) :
    Builds (fun _ => True) written f (f.descend links base rest).2 := by
  -- Only one case changes the files: the one where a name is missing.
  fun_induction descend f links base rest with
  | case5 f links base name rest hskip hdots hlong hnone ih =>
    exact (builds_set_directory hnone trivial).trans ih
  | _ => first | assumption | exact .refl _ _ _

theorem closed_descend (f : Files) (links : Nat) (base : Path) (rest : List Text)
    (hclosed : f.Closed) (hbase : f.entry? base = some .directory) :
    (f.descend links base rest).2.Closed := by
  fun_induction descend f links base rest with
  | case2 f links base name rest hskip ih => exact ih hclosed hbase
  | case3 f links base rest hskip ih => exact ih hclosed (hclosed _ hbase)
  | case5 f links base name rest hskip hdots hlong hnone ih =>
    have hne : base ++ [name] ≠ [] := by simp
    refine ih (closed_set hclosed (by simp [hnone]) fun _ => ?_) (entry?_set_self f hne _)
    rwa [List.dropLast_concat]
  | case6 f links base name rest hskip hdots hlong hentry ih => exact ih hclosed hentry
  | case8 f links base name rest hskip hdots hlong target hentry place links' hfollow hplace ih =>
    exact ih hclosed hplace
  | _ => exact hclosed

/-- Whatever was gone down leads, in the files that this leaves, to its place. -/
theorem leads_of_descend {links : Nat} {base place : Path} {rest : List Text}
    (hd : f.descend links base rest = (.ok place, g)) :
    ∃ n ≤ links, Leads g base rest n place := by
  fun_induction descend f links base rest with
  | case1 f links base =>
    cases hd
    exact ⟨0, Nat.zero_le _, .here _⟩
  | case2 f links base name rest hstay ih =>
    obtain ⟨n, hn, hleads⟩ := ih hd
    exact ⟨n, hn, .stay hstay hleads⟩
  | case3 f links base rest hskip ih =>
    obtain ⟨n, hn, hleads⟩ := ih hd
    exact ⟨n, hn, .up hleads⟩
  | case5 f links base name rest hskip hdots hlong hnone ih =>
    obtain ⟨n, hn, hleads⟩ := ih hd
    have hmade := builds_descend (fun _ => False) (f.set (base ++ [name]) .directory) links
      (base ++ [name]) rest
    rw [hd] at hmade
    have hne : base ++ [name] ≠ [] := by simp
    exact ⟨n, hn, .down (isStep_of_not hskip hdots hlong)
      (hmade.directory (entry?_set_self f hne _)) hleads⟩
  | case6 f links base name rest hskip hdots hlong hentry ih =>
    obtain ⟨n, hn, hleads⟩ := ih hd
    have hmade := builds_descend (fun _ => False) f links (base ++ [name]) rest
    rw [hd] at hmade
    exact ⟨n, hn, .down (isStep_of_not hskip hdots hlong) (hmade.directory hentry) hleads⟩
  | case8 f links base name rest hskip hdots hlong target hentry middle left hfollow hmiddle ih =>
    obtain ⟨n, hn, hleads⟩ := ih hd
    have hmade := builds_descend (fun _ => False) f left middle rest
    rw [hd] at hmade
    rw [← List.append_nil (pieces target)] at hfollow
    obtain ⟨m, fuel, turn, htarget, hlinks, hturn⟩ := exists_leads_of_follow hfollow (.inr hmiddle)
    -- Nothing is left to follow after the link, and so no fuel but what `left` tells of is either.
    cases fuel with
    | zero => cases hturn
    | succ fuel =>
      obtain ⟨rfl, rfl⟩ := Prod.mk.inj (Except.ok.inj (hturn : Except.ok (turn, fuel) = _))
      exact ⟨m + n + 1, by omega, .link (isStep_of_not hskip hdots hlong) (hmade.link hentry)
        (hmade.leads htarget) hleads⟩
  | _ => cases hd

/-! ## Following in what was built -/

namespace Builds

/-- A way stays the same, unless it fails: what is built later is not in the way. -/
theorem walk (hfg : Builds made written f g) {aim : Aim} {base : Path} {rest : List Text}
    {way : Walk} (hway : f.walk aim base rest = way) (hfailed : ∀ fault, way ≠ .failed fault) :
    g.walk aim base rest = way := by
  fun_induction Files.walk f aim base rest with
  | case1 base => exact hway
  | case2 base name rest hstay ih => rw [Files.walk, if_pos hstay, ih hway]
  | case3 base rest hstay ih => rw [Files.walk, if_neg hstay, if_pos rfl, ih hway]
  | case6 base name rest hstay hup hslash hlong hentry ih =>
    rw [Files.walk, if_neg hstay, if_neg hup, if_neg hslash, if_neg hlong, hfg.directory hentry]
    exact ih hway
  | case7 base name rest hstay hup hslash hlong target hentry =>
    rw [Files.walk, if_neg hstay, if_neg hup, if_neg hslash, if_neg hlong, hfg.link hentry]
    exact hway
  | case8 base name rest hstay hup hslash hlong entry hdirectory hlink hentry hlast =>
    obtain rfl := List.isEmpty_iff.1 hlast
    refine (walk_last (isStep_of_not hstay hup hlong) fun target he => ?_).trans hway
    rw [hfg.link_iff, hentry] at he
    exact hlink target (Option.some.inj he)
  | case10 base name rest hstay hup hslash hlong hentry hlast =>
    obtain rfl := List.isEmpty_iff.1 hlast
    refine (walk_last (isStep_of_not hstay hup hlong) fun target he => ?_).trans hway
    rw [hfg.link_iff, hentry] at he
    cases he
  | _ => exact absurd hway.symm (hfailed _)

/-- Whatever is followed somewhere leads there as well in files that were built from these. -/
theorem follow (hfg : Builds made written f g) {aim : Aim} {fuel left : Nat} {base place : Path}
    {rest : List Text} (h : f.follow aim fuel base rest = .ok (place, left)) :
    g.follow aim fuel base rest = .ok (place, left) := by
  induction fuel generalizing base rest with
  | zero => cases h
  | succ fuel ih =>
    rw [Files.follow] at h ⊢
    cases hway : f.walk aim base rest with
    | arrived path =>
      rw [hway] at h
      rwa [hfg.walk hway fun _ e => by cases e]
    | failed fault =>
      rw [hway] at h
      cases h
    | detour start more =>
      rw [hway] at h
      rw [hfg.walk hway fun _ e => by cases e]
      exact ih h

end Builds

/-- What is followed to make a file is followed to use one. -/
theorem walk_use {base : Path} {rest : List Text} {way : Walk}
    (hway : f.walk .make base rest = way) (hfailed : ∀ fault, way ≠ .failed fault) :
    f.walk .use base rest = way := by
  fun_induction Files.walk f .make base rest with
  | case1 base => exact hway
  | case2 base name rest hstay ih => rw [Files.walk, if_pos hstay, ih hway]
  | case3 base rest hstay ih => rw [Files.walk, if_neg hstay, if_pos rfl, ih hway]
  | case6 base name rest hstay hup hslash hlong hentry ih =>
    rw [Files.walk, if_neg hstay, if_neg hup, if_neg (by simp), if_neg hlong, hentry]
    exact ih hway
  | case7 base name rest hstay hup hslash hlong target hentry =>
    rw [Files.walk, if_neg hstay, if_neg hup, if_neg (by simp), if_neg hlong, hentry]
    exact hway
  | case8 base name rest hstay hup hslash hlong entry hdirectory hlink hentry hlast =>
    rw [Files.walk, if_neg hstay, if_neg hup, if_neg (by simp), if_neg hlong, hentry]
    simp only [hlast, if_true]
    exact hway
  | case10 base name rest hstay hup hslash hlong hentry hlast =>
    rw [Files.walk, if_neg hstay, if_neg hup, if_neg (by simp), if_neg hlong, hentry]
    simp only [hlast, if_true]
    exact hway
  | _ => exact absurd hway.symm (hfailed _)

theorem follow_use {fuel left : Nat} {base place : Path} {rest : List Text}
    (h : f.follow .make fuel base rest = .ok (place, left)) :
    f.follow .use fuel base rest = .ok (place, left) := by
  induction fuel generalizing base rest with
  | zero => cases h
  | succ fuel ih =>
    rw [follow] at h ⊢
    cases hway : f.walk .make base rest with
    | arrived path =>
      rw [hway] at h
      rwa [walk_use hway fun _ e => by cases e]
    | failed fault =>
      rw [hway] at h
      cases h
    | detour start more =>
      rw [hway] at h
      rw [walk_use hway fun _ e => by cases e]
      exact ih h

end Files

end BulkTransfer
