import BulkTransfer.Proofs.Files.Straight
import BulkTransfer.Proofs.Files.Tree

/-!
# Directories that receive files

A directory to which its path leads, or one that is missing below real directories, receives every
file whose path fits (`Receives.writeUnder`), and goes on to receive files.  Where it is empty or
missing (`Vacant`), the files that it has received are all that stand below it.
-/

namespace BulkTransfer

namespace Files

/-- Files can be written into a directory, at a place: the directory is there, or there are nothing
but directories on the way down to it. -/
inductive Receives (f : Files) (directory place : Path) : Prop
  | found (h : f.Found directory place)
  | free (hplace : place = directory.map Text.stored) (hsteps : ∀ name ∈ place, IsStep name)
    (hfree : ∀ q, q <+: place → q ≠ [] → ¬ f.Blocked q)

variable {f g : Files} {directory place : Path} {name : Text} {content : Bytes}
  {made written : Path → Prop}

theorem Found.builds (h : f.Found directory place) (hfg : Builds made written f g) :
    g.Found directory place :=
  let ⟨n, hn, hleads⟩ := h.leads
  ⟨h.normal, h.usable, ⟨n, hn, hfg.leads hleads⟩, hfg.directory h.entry⟩

/-- Making a directory that receives files makes it at its place. -/
theorem Receives.makeDirectories (h : f.Receives directory place) (hdirectory : directory.IsNormal)
    (hfits : Fits directory) (hclosed : f.Closed) (written : Path → Prop) :
    ∃ g, f.makeDirectories (Path.text directory) = (.ok place, g) ∧
      Builds (· <+: place) written f g ∧ g.Closed ∧ g.Found directory place := by
  rw [makeDirectories_text hdirectory hfits]
  cases h with
  | found h =>
    obtain ⟨n, hn, hleads⟩ := h.leads
    have hdescend := hleads.descend_append hclosed rfl (linkLimit - n) []
    rw [List.append_nil, Nat.add_sub_cancel' hn] at hdescend
    rw [hdescend]
    exact ⟨f, rfl, .refl _ _ _, hclosed, h⟩
  | free hplace hsteps hfree =>
    subst hplace
    obtain ⟨g, hdescend⟩ : ∃ g, f.descend linkLimit [] (directory.map Text.stored) =
        (.ok (directory.map Text.stored), g) := exists_descend_free hsteps hfree linkLimit
    have hstraight : f.Straight [] (directory.map Text.stored) := by
      intro q hq hne target hlink
      rw [List.nil_append] at hlink
      exact hfree q hq hne ⟨by simp [hlink], by simp [hlink]⟩
    obtain ⟨hbuilds, -⟩ := of_descend_straight hdirectory.stored hstraight written hdescend
    have hclosed' := closed_descend f linkLimit [] (directory.map Text.stored) hclosed rfl
    obtain ⟨n, hn, hleads⟩ := leads_of_descend hdescend
    rw [hdescend] at hclosed' ⊢
    refine ⟨g, rfl, hbuilds.mono ?_ fun _ => id, hclosed', hdirectory, hfits.usable,
      ⟨n, hn, hleads⟩, hleads.isDirectory hclosed' rfl⟩
    rintro path ⟨q, hq, -, rfl⟩
    exact hq

/-- A directory that receives files receives a file where nothing else stands, and then it is
there. -/
theorem Receives.writeUnder (h : f.Receives directory place) (hclosed : f.Closed)
    (hname : IsFileName name) (hp : (directory ++ [name]).IsNormal)
    (hfits : Fits (directory ++ [name]))
    (hentry : f.entry? (place ++ [name]) = none ∨
      ∃ old, f.entry? (place ++ [name]) = some (.file old)) (content : Bytes) :
    ∃ g, f.writeUnder (Path.text (directory ++ [name])) content = (.ok (), g) ∧
      Builds (· <+: place) (· = place ++ [name]) f g ∧ g.Closed ∧ g.Found directory place ∧
      g.entry? (place ++ [name]) = some (.file content) := by
  obtain ⟨g, hmake, hmade, hkept, hfound⟩ :=
    h.makeDirectories hp.of_append hfits.of_append hclosed fun _ => False
  -- Nothing is made at the place of the file, which is below the directory.
  have hsame := hmade.entry?_eq (not_append_isPrefix_self place name) id
  rw [← hsame] at hentry
  have hlink : ∀ target, g.entry? (place ++ [name]) ≠ some (.link target) := by
    intro target hlink
    rcases hentry with he | ⟨old, he⟩ <;> simp [he] at hlink
  have hlocate := hfound.locateFor_append hname hlink .openFile .make
  rw [if_neg (by simp [hfits.short])] at hlocate
  have hwrite : g.write (Path.text (directory ++ [name])) content =
      .ok (g.set (place ++ [name]) (.file content)) := by
    rw [write_of_locateFor hlocate]
    rcases hentry with he | ⟨old, he⟩ <;> rw [he]
  obtain ⟨hset, hclosed', -⟩ := write_eq_ok hlocate hlink hwrite
  refine ⟨g.set (place ++ [name]) (.file content), ?_,
    (hmade.mono (fun _ => id) fun _ => False.elim).trans
      (hset.mono (fun _ => False.elim) fun _ => id), hclosed' hkept, hfound.builds hset,
    entry?_set_self g (by simp) _⟩
  simp only [Files.writeUnder, Path.parentText_text hname.isName, hmake, hwrite]

/-- Only a file whose path fits is written. -/
theorem fits_of_writeUnder {p : Path} (hp : p.IsNormal)
    (h : f.writeUnder (Path.text p) content = (.ok (), g)) : Fits p := by
  rw [Files.writeUnder] at h
  cases hm : f.makeDirectories (Path.parentText (Path.text p)) with
  | mk outcome middle =>
    rw [hm] at h
    cases outcome with
    | error e => cases h
    | ok reached =>
      cases hl : middle.locateFor .openFile .make (Path.text p) with
      | error e => simp [write, hl] at h
      | ok place => exact ((locateFor_eq_ok_iff .openFile hp).1 hl).1

/-! ## Vacant directories -/

/-- A directory is empty; or it is missing, with nothing but directories on the way down to it. -/
inductive Vacant (f : Files) (directory place : Path) : Prop
  | empty (hplace : f.locate .use (Path.text directory) = .ok place)
    (hscan : f.scan (Path.text directory) = .ok [])
  | missing (husable : isUsable (Path.text directory) = true)
    (hplace : place = directory.map Text.stored) (hmissing : f.entry? place = none)
    (hway : ∀ q, q <+: place → f.entry? q = none ∨ f.entry? q = some .directory)
    (hshort : ∀ name ∈ place, isTooLong name = false)

namespace Vacant

/-- What can be listed as empty is a directory, in which nothing stands. -/
theorem found_of_scan (hdirectory : directory.IsNormal)
    (hplace : f.locate .use (Path.text directory) = .ok place)
    (hscan : f.scan (Path.text directory) = .ok []) :
    f.Found directory place ∧ f.children place = [] := by
  rw [scan] at hscan
  cases hl : f.locateFor .scan .use (Path.text directory) with
  | error e => simp [hl] at hscan
  | ok reached =>
    obtain ⟨hfits, hfollow⟩ := (locateFor_eq_ok_iff .scan hdirectory).1 hl
    obtain rfl : place = reached := Except.ok.inj
      (hplace.symm.trans ((locate_eq_ok_iff hdirectory).2 ⟨hfits.short, hfollow⟩))
    have hentry : f.entry? place = some .directory := by
      simp only [hl] at hscan
      split at hscan
      · assumption
      · cases hscan
      · cases hscan
    simp only [hl, hentry, Except.ok.injEq] at hscan
    refine ⟨found_of_locateFor hdirectory hl hentry, ?_⟩
    exact List.eq_nil_of_length_eq_zero (by rw [← List.length_mergeSort, hscan]; rfl)

theorem receives (h : f.Vacant directory place) (hdirectory : directory.IsNormal) :
    f.Receives directory place := by
  cases h with
  | empty hplace hscan =>
    exact .found (found_of_scan hdirectory hplace hscan).1
  | missing _ hplace hmissing hway hshort =>
    refine .free hplace (fun name hname => ?_) fun q hq _ hblocked => ?_
    · refine isStep_of_isName ?_ (hshort name hname)
      rw [hplace] at hname
      exact hdirectory.stored name hname
    · rcases hway q hq with hq | hq
      · exact hblocked.1 hq
      · exact hblocked.2 hq

theorem usable (h : f.Vacant directory place) (hdirectory : directory.IsNormal) :
    isUsable (Path.text directory) = true := by
  cases h with
  | empty hplace hscan => exact (found_of_scan hdirectory hplace hscan).1.usable
  | missing husable => exact husable

/-- Nothing stands below a vacant directory. -/
theorem entry?_below (h : f.Vacant directory place) (hdirectory : directory.IsNormal)
    (htree : f.Tree) {below : Path} (hbelow : below ≠ []) : f.entry? (place ++ below) = none := by
  by_contra hentry
  obtain ⟨entry, hentry⟩ := Option.ne_none_iff_exists'.1 hentry
  cases h with
  | empty hplace hscan =>
    obtain ⟨-, hempty⟩ := found_of_scan hdirectory hplace hscan
    obtain ⟨name, rest, rfl⟩ := List.exists_cons_of_ne_nil hbelow
    obtain ⟨child, hchild⟩ : ∃ child, f.entry? (place ++ [name]) = some child := by
      by_cases hrest : rest = []
      · exact ⟨entry, by rwa [hrest] at hentry⟩
      · have hdeeper : f.entry? (place ++ [name] ++ rest) = some entry := by
          rwa [List.append_assoc, List.singleton_append]
        exact ⟨.directory, htree.directory_of_append hdeeper hrest⟩
    have hmem := htree.toNamed.mem_children_iff.2 hchild
    rw [hempty] at hmem
    cases hmem
  | missing _ hplace hmissing _ _ =>
    rw [htree.directory_of_append hentry hbelow] at hmissing
    cases hmissing

end Vacant

end Files

end BulkTransfer
