import BulkTransfer.Proofs.Files.Building

/-!
# Calls by the text of a path

The text of a path in normal form can be given to a call if it holds no zero and is not overlong
(`Fits`).  Then the call goes by the path's stored components (`locateFor_eq_ok_iff`).  Writing
below new directories sets the regular file at the place to which these components lead, and else
only makes directories (`of_writeUnder`).
-/

namespace BulkTransfer

namespace Files

/-- The text of a path can be given to a call on files. -/
structure Fits (p : Path) : Prop where
  usable : isUsable (Path.text p) = true
  short : isOverlong (Path.text p) = false

variable {f g : Files} {aim : Aim} {p : Path} {place : Path}

/-! ## Texts and components -/

theorem isUsable_iff {t : Text} : isUsable t = true ↔ 0 ∉ t := by
  simp [isUsable]

theorem isOverlong_eq_false_iff {t : Text} :
    isOverlong t = false ↔ (Text.utf8 t).length ≤ pathLimit := by
  simp [isOverlong]

/-- What fits goes on to fit when a path is cut short. -/
theorem Fits.of_append {q : Path} (h : Fits (p ++ q)) : Fits p := by
  by_cases hq : q = []
  · rwa [hq, List.append_nil] at h
  obtain ⟨start, htext, hstart⟩ := Path.exists_text_append p hq
  obtain ⟨husable, hshort⟩ := h
  rw [htext] at husable hshort
  rw [isUsable_iff, List.mem_append, not_or] at husable
  rw [Path.text, isOverlong_eq_false_iff, Text.utf8_append_slash, List.length_append] at hshort
  rcases hstart with rfl | ⟨-, rfl⟩
  · exact ⟨isUsable_iff.2 husable.1, isOverlong_eq_false_iff.2 (by omega)⟩
  · exact ⟨by decide +kernel, by decide +kernel⟩

theorem components_text (f : Files) (p : Path) :
    f.components (Path.text p) = pieces (Path.text p) := by
  rw [components, if_pos (Path.isAbsolute_text p), List.nil_append]

theorem follow_text (f : Files) (aim : Aim) (fuel : Nat) (hp : p.IsNormal) :
    f.follow aim fuel [] (f.components (Path.text p)) =
      f.follow aim fuel [] (p.map Text.stored) := by
  rw [components_text]
  exact follow_congr (walk_pieces_text f aim hp) fuel

theorem descend_text (f : Files) (links : Nat) (hp : p.IsNormal) :
    f.descend links [] (f.components (Path.text p)) =
      f.descend links [] (p.map Text.stored) := by
  rw [components_text, pieces_text, descend, if_pos (.inl rfl)]
  cases p with
  | nil => simp [Text.joinWith, Text.split, descend]
  | cons name rest =>
    rw [Text.split_joinWith (by simp) fun piece hpiece => (hp.stored piece hpiece).no_slash]

theorem mapError_eq_ok_iff {α ε ε' : Type} {outcome : Except ε α} {convert : ε → ε'} {a : α} :
    outcome.mapError convert = .ok a ↔ outcome = .ok a := by
  cases outcome with
  | error e => exact iff_of_false (fun h => by cases h) (fun h => by cases h)
  | ok b => exact ⟨fun h => by cases h; rfl, fun h => by cases h; rfl⟩

theorem map_fst_eq_ok_iff {α β ε : Type} {outcome : Except ε (α × β)} {a : α} :
    outcome.map Prod.fst = .ok a ↔ ∃ b, outcome = .ok (a, b) := by
  cases outcome with
  | error e => exact iff_of_false (fun h => by cases h) (fun ⟨_, h⟩ => by cases h)
  | ok x => exact ⟨fun h => by cases h; exact ⟨x.2, rfl⟩, fun ⟨_, h⟩ => by cases h; rfl⟩

theorem locate_eq_ok_iff (hp : p.IsNormal) :
    f.locate aim (Path.text p) = .ok place ↔
      isOverlong (Path.text p) = false ∧
        ∃ left, f.follow aim (linkLimit + 1) [] (p.map Text.stored) = .ok (place, left) := by
  have hne : Path.text p ≠ [] := List.cons_ne_nil _ _
  rw [locate, if_neg hne]
  by_cases hlong : isOverlong (Path.text p) = true
  · rw [if_pos hlong]
    exact iff_of_false (fun h => by cases h) fun h => by simp [h.1] at hlong
  · rw [if_neg hlong, Files.place, map_fst_eq_ok_iff, follow_text f aim _ hp]
    exact (and_iff_right (by simpa using hlong)).symm

/-- A call finds what stands at a path exactly when the text can be a path and leads there. -/
theorem locateFor_iff_locate {call : FileCall} {t : Text} :
    f.locateFor call aim t = .ok place ↔ isUsable t = true ∧ f.locate aim t = .ok place := by
  unfold locateFor
  by_cases husable : isUsable t = true
  · simp [husable, mapError_eq_ok_iff]
  · simp [husable]

/-- The text of a path leads, if it fits, to where the path's stored components do. -/
theorem locateFor_eq_ok_iff (call : FileCall) (hp : p.IsNormal) :
    f.locateFor call aim (Path.text p) = .ok place ↔
      Fits p ∧ ∃ left, f.follow aim (linkLimit + 1) [] (p.map Text.stored) = .ok (place, left) := by
  rw [locateFor_iff_locate, locate_eq_ok_iff hp]
  exact ⟨fun ⟨husable, hshort, hleads⟩ => ⟨⟨husable, hshort⟩, hleads⟩,
    fun ⟨hfits, hleads⟩ => ⟨hfits.usable, hfits.short, hleads⟩⟩

/-! ## Making directories -/

theorem makeDirectories_text (hp : p.IsNormal) (hfits : Fits p) :
    f.makeDirectories (Path.text p) =
      ((f.descend linkLimit [] (p.map Text.stored)).1.mapError fun fault =>
          .failed fault .makeDirectory (some (Path.text p)),
        (f.descend linkLimit [] (p.map Text.stored)).2) := by
  rw [makeDirectories, if_neg (by simp [hfits.usable]), if_neg (by simp [hfits.short]),
    descend_text f linkLimit hp]

/-- A text that does not fit is refused, whatever the files are. -/
theorem exists_makeDirectories_error (hfits : ¬ Fits p) :
    ∃ e, ∀ f : Files, f.makeDirectories (Path.text p) = (.error e, f) := by
  by_cases husable : isUsable (Path.text p) = true
  · have hlong : isOverlong (Path.text p) = true :=
      Decidable.byContradiction fun hlong => hfits ⟨husable, by simpa using hlong⟩
    exact ⟨_, fun f => by rw [makeDirectories, if_neg (by simp [husable]), if_pos hlong]⟩
  · exact ⟨_, fun f => by rw [makeDirectories, if_pos (by simpa using husable)]⟩

theorem fits_of_makeDirectories {t : Text} {h : Files} {place : Path}
    (hmake : f.makeDirectories t = (.ok place, h)) : isUsable t = true ∧ isOverlong t = false := by
  rw [makeDirectories] at hmake
  split at hmake
  · cases hmake
  · next husable =>
    split at hmake
    · cases hmake
    · next hshort => exact ⟨by simpa using husable, by simpa using hshort⟩

theorem descend_of_makeDirectories (hp : p.IsNormal)
    (hmake : f.makeDirectories (Path.text p) = (.ok place, g)) :
    Fits p ∧ f.descend linkLimit [] (p.map Text.stored) = (.ok place, g) := by
  obtain ⟨husable, hshort⟩ := fits_of_makeDirectories hmake
  have hfits : Fits p := ⟨husable, hshort⟩
  rw [makeDirectories_text hp hfits] at hmake
  obtain ⟨hout, hfiles⟩ := Prod.mk.inj hmake
  exact ⟨hfits, Prod.ext (mapError_eq_ok_iff.1 hout) hfiles⟩

theorem builds_makeDirectories (written : Path → Prop) (f : Files) (t : Text) :
    Builds (fun _ => True) written f (f.makeDirectories t).2 := by
  rw [makeDirectories]
  split
  · exact .refl _ _ _
  · split
    · exact .refl _ _ _
    · exact builds_descend written f linkLimit [] (f.components t)

theorem closed_makeDirectories (t : Text) (hclosed : f.Closed) :
    (f.makeDirectories t).2.Closed := by
  rw [makeDirectories]
  split
  · exact hclosed
  · split
    · exact hclosed
    · exact closed_descend f linkLimit [] (f.components t) hclosed rfl

/-! ## Writing files -/

section Writing

variable {t : Text} {content : Bytes}

theorem write_of_locateFor (h : f.locateFor .openFile .make t = .ok place) (content : Bytes) :
    f.write t content =
      match f.entry? place with
      | some .directory => .error (.failed .isDirectory .openFile (some t))
      | some .special => .ok f
      | _ => .ok (f.set place (.file content)) := by
  rw [write]
  exact h ▸ rfl

/-- Writing sets the regular file at the place that the path leads to, unless a special entry
swallows the content. -/
theorem write_eq_ok (hlocate : f.locateFor .openFile .make t = .ok place)
    (hlink : ∀ target, f.entry? place ≠ some (.link target)) (hwrite : f.write t content = .ok g) :
    Builds (fun _ => False) (· = place) f g ∧ (f.Closed → g.Closed) ∧
      (g.entry? place = some .special ∨ g.entry? place = some (.file content)) := by
  rw [write_of_locateFor hlocate] at hwrite
  by_cases hd : f.entry? place = some .directory
  · simp [hd] at hwrite
  by_cases hspecial : f.entry? place = some .special
  · obtain rfl : f = g := by simpa [hspecial] using hwrite
    exact ⟨.refl _ _ _, id, .inl hspecial⟩
  have hentry : f.entry? place = none ∨ ∃ old, f.entry? place = some (.file old) := by
    cases he : f.entry? place with
    | none => exact .inl rfl
    | some entry =>
      cases entry with
      | file old => exact .inr ⟨old, rfl⟩
      | directory => exact absurd he hd
      | link target => exact absurd he (hlink target)
      | special => exact absurd he hspecial
  obtain rfl : f.set place (.file content) = g := by
    rcases hentry with he | ⟨old, he⟩ <;> simpa [he] using hwrite
  exact ⟨builds_set_file hentry rfl, fun hclosed => closed_set hclosed hd fun e => by (cases e),
    .inr (entry?_set_self f (ne_nil_of_not_directory hd) _)⟩

/-- A path that a file was opened by: its directory is there, and it leads to a place. -/
structure Opens (f : Files) (directory : Path) (name : Text) (place : Path) : Prop where
  fits : Fits (directory ++ [name])
  leads : ∃ n ≤ linkLimit, ∃ middle, Leads f [] (directory.map Text.stored) n middle
  follow : ∃ left, f.follow .make (linkLimit + 1) [] ((directory ++ [name]).map Text.stored) =
    .ok (place, left)

theorem Opens.builds {made written : Path → Prop} {directory : Path} {name : Text}
    (h : Opens f directory name place) (hfg : Builds made written f g) :
    Opens g directory name place := by
  obtain ⟨n, hn, middle, hleads⟩ := h.leads
  obtain ⟨left, hfollow⟩ := h.follow
  exact ⟨h.fits, ⟨n, hn, middle, hfg.leads hleads⟩, left, hfg.follow hfollow⟩

/-- A write that fails has at most made directories. -/
theorem of_writeUnder_error (written : Path → Prop) {e : FileError}
    (h : f.writeUnder t content = (.error e, g)) :
    Builds (fun _ => True) written f g ∧ (f.Closed → g.Closed) := by
  have hmade := builds_makeDirectories written f (Path.parentText t)
  have hclosed := closed_makeDirectories (f := f) (Path.parentText t)
  rw [writeUnder] at h
  generalize f.makeDirectories (Path.parentText t) = made at hmade hclosed h
  obtain ⟨outcome, middle⟩ := made
  cases outcome with
  | error e' => cases h; exact ⟨hmade, hclosed⟩
  | ok place =>
    cases hw : middle.write t content with
    | error e' =>
      obtain ⟨-, rfl⟩ : _ ∧ middle = g := by simpa [hw] using h
      exact ⟨hmade, hclosed⟩
    | ok written => simp [hw] at h

/-- A write that succeeds has made the file's directory and has opened the file there. -/
theorem of_writeUnder {directory : Path} {name : Text} (hp : (directory ++ [name]).IsNormal)
    (hclosed : f.Closed)
    (h : f.writeUnder (Path.text (directory ++ [name])) content = (.ok (), g)) :
    ∃ place, Opens g directory name place ∧ Builds (fun _ => True) (· = place) f g ∧ g.Closed := by
  have hdirectory : directory.IsNormal := fun n hn => hp n (List.mem_append_left _ hn)
  have hname : Path.IsName name := hp name (by simp)
  have hmade := builds_makeDirectories (fun _ => False) f (Path.text directory)
  have hkept := closed_makeDirectories (Path.text directory) hclosed
  rw [writeUnder, Path.parentText_text hname] at h
  cases hm : f.makeDirectories (Path.text directory) with
  | mk outcome middle =>
    rw [hm] at h hmade hkept
    cases outcome with
    | error e => cases h
    | ok reached =>
      obtain ⟨-, hdescend⟩ := descend_of_makeDirectories hdirectory hm
      obtain ⟨n, hn, hleads⟩ := leads_of_descend hdescend
      cases hw : middle.write (Path.text (directory ++ [name])) content with
      | error e => simp [hw] at h
      | ok written =>
        obtain rfl : written = g := by simpa [hw] using h
        cases hl : middle.locateFor .openFile .make (Path.text (directory ++ [name])) with
        | error e => simp [write, hl] at hw
        | ok place =>
          obtain ⟨hfits, left, hfollow⟩ := (locateFor_eq_ok_iff .openFile hp).1 hl
          have hlink := not_link_of_follow hkept rfl hfollow
          obtain ⟨hbuilds, hclosed', -⟩ := write_eq_ok hl hlink hw
          have hopens : Opens middle directory name place :=
            ⟨hfits, ⟨n, hn, reached, hleads⟩, left, hfollow⟩
          exact ⟨place, hopens.builds hbuilds,
            (hmade.mono (fun _ => id) fun _ => False.elim).trans
              (hbuilds.mono (fun _ _ => trivial) fun _ => id), hclosed' hkept⟩

end Writing

end Files

end BulkTransfer
