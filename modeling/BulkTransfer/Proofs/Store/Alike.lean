import BulkTransfer.Proofs.Files.Straight
import BulkTransfer.Proofs.Store.Unbroken

/-!
# What an operation takes notice of

What an operation does to files depends on little of them: what stands at the place of its own, and
where the way down to it is blocked.  Sites that have this in common are alike for the operation
(`Alike`).  There it takes the same steps, if it finds the same object when it begins, and they are
alike still (`Alike.move`); they stay so when another operation takes a step that keeps off all this
(`Alike.frame`).
-/

namespace BulkTransfer

namespace Site

/-- The local path of a task is the text of a path in normal form. -/
structure Names (task : Task) (directory : Path) (name : Text) : Prop where
  normal : Path.IsNormal (directory ++ [name])
  path : task.localPath = Path.text (directory ++ [name])

/-- Where a file stands whose path goes over no link. -/
def target (directory : Path) (name : Text) : Path :=
  directory.map Text.stored ++ [Text.stored name]

/-- Sites without links that are alike for an operation at a stage: its object fails alike, at the
place of its file stands the same, and the way down to it is blocked alike.  The second site may
have more directories.  The file of a put is where its path leads, and a get that is to write has
made the directory. -/
structure Alike (task : Task) (directory : Path) (name : Text) (stage : Stage) (t now : Site) :
    Prop where
  failure : now.store.failureOf task.objectName = t.store.failureOf task.objectName
  place : now.files.entry? (target directory name) = t.files.entry? (target directory name)
  more : ∀ path, t.files.entry? path = some .directory → now.files.entry? path = some .directory
  blocked : ∀ q, q <+: directory.map Text.stored → (t.files.Blocked q ↔ now.files.Blocked q)
  linkless : t.files.Linkless ∧ now.files.Linkless
  led : task.direction = .upload → ∀ f, f = t.files ∨ f = now.files →
    f.locateFor .openFile .use task.localPath = .ok (target directory name)
  way : ∀ content, stage = .writing content → ∃ n ≤ Files.linkLimit,
    Files.Leads t.files [] (directory.map Text.stored) n (directory.map Text.stored)

namespace Alike

variable {s t now next : Site} {task : Task} {stage stage' : Stage} {directory : Path} {name : Text}
  {content : Bytes} {files' : Files}

theorem refl (hn : Names task directory name) (hlinkless : s.files.Linkless)
    (hled : task.direction = .upload → ∃ place,
      s.files.locateFor .openFile .use task.localPath = .ok place) :
    Alike task directory name .waiting s s where
  failure := rfl
  place := rfl
  more := fun _ => id
  blocked := fun _ _ => Iff.rfl
  linkless := ⟨hlinkless, hlinkless⟩
  led := by
    rintro hupload f (rfl | rfl) <;>
    · obtain ⟨place, hplace⟩ := hled hupload
      rw [hn.path] at hplace ⊢
      rw [hplace, Files.eq_append_of_locateFor hn.normal (hlinkless.straight _ _) hplace]
      rfl
  way := fun _ h => by cases h

/-! ## Steps of the operation -/

theorem keep (h : Alike task directory name stage t now)
    (hway : ∀ content, stage' ≠ .writing content) : Alike task directory name stage' t now :=
  { h with way := fun content hstage => absurd hstage (hway content) }

/-- The file of a put is read alike. -/
theorem read_eq (h : Alike task directory name stage t now) (hupload : task.direction = .upload) :
    now.files.read task.localPath = t.files.read task.localPath := by
  rw [Files.read, Files.read, h.led hupload _ (.inl rfl), h.led hupload _ (.inr rfl)]
  simp only [h.place]

/-- The directory of the file is made alike, and with it no directories that are not there in the
first site then. -/
theorem make (hn : Names task directory name) (h : Alike task directory name stage t now)
    (stage' : Stage) {outcome outcome' : Except FileError Path} {files : Files}
    (hmake : t.files.makeDirectories (Path.parentText task.localPath) = (outcome, files))
    (hmake' : now.files.makeDirectories (Path.parentText task.localPath) = (outcome', files'))
    (hway : ∀ content, stage' = .writing content → ∃ place, outcome' = .ok place) :
    outcome' = outcome ∧
      Alike task directory name stage' { t with files } { now with files := files' } ∧
        Files.Builds (fun path => files.entry? path = some .directory) (fun _ => False)
          now.files files' := by
  have hdirectory : directory.IsNormal := hn.normal.of_append
  have hf := h.linkless.1.straight [] (directory.map Text.stored)
  have hg := h.linkless.2.straight [] (directory.map Text.stored)
  have hblocked : ∀ q, q <+: directory.map Text.stored → q ≠ [] →
      (t.files.Blocked q ↔ now.files.Blocked q) := fun q hq _ => h.blocked q hq
  rw [hn.path, Path.parentText_text (hn.normal name (by simp))] at hmake hmake'
  have hsame := Files.makeDirectories_congr hdirectory hf hg hblocked
  obtain ⟨hbuilds, hmore⟩ := Files.makeDirectories_makes hdirectory hf hg hblocked h.more
  obtain ⟨hmade, hreached⟩ :=
    Files.of_makeDirectories_straight hdirectory hf (fun _ => False) hmake
  obtain ⟨hbuilt, -⟩ := Files.of_makeDirectories_straight hdirectory hg (fun _ => False) hmake'
  rw [hmake, hmake'] at hsame hmore hbuilds
  refine ⟨hsame.symm, ?_, hbuilds⟩
  exact
    { failure := h.failure
      -- The place of the file is below the directory, where nothing is made.
      place := by
        have hbelow : ¬ target directory name <+: directory.map Text.stored :=
          Files.not_append_isPrefix_self _ _
        exact ((hbuilt.entry?_eq hbelow id).trans h.place).trans (hmade.entry?_eq hbelow id).symm
      more := hmore
      blocked := fun q hq => by
        rw [hmade.blocked_iff False.elim, hbuilt.blocked_iff False.elim]
        exact h.blocked q hq
      linkless := ⟨hmade.linkless h.linkless.1, hbuilt.linkless h.linkless.2⟩
      led := by
        have hled := h.led
        rw [hn.path] at hled ⊢
        rintro hupload f (rfl | rfl)
        · exact hmade.locateFor hn.normal (hled hupload _ (.inl rfl))
        · exact hbuilt.locateFor hn.normal (hled hupload _ (.inr rfl))
      way := fun content hwriting => by
        obtain ⟨place, hplace⟩ := hway content hwriting
        obtain ⟨rfl, hleads⟩ := hreached place (hsame.trans hplace)
        exact hleads }

/-- Whether the file can be written is alike. -/
theorem map_write (hn : Names task directory name)
    (h : Alike task directory name (.writing content) t now) :
    (t.files.write task.localPath content).map (fun _ => ()) =
      (now.files.write task.localPath content).map fun _ => () := by
  obtain ⟨n, hlinks, hleads⟩ := h.way content rfl
  have hleads' := hleads.mono (h.more _) fun hlink => absurd hlink (h.linkless.1 _ _)
  rw [hn.path]
  refine Files.map_write_congr hn.normal hlinks hlinks hleads hleads' (h.linkless.1 _)
    (h.linkless.2 _) ?_ content content
  rw [← target, h.place]

theorem write_error {e : FileError} (hn : Names task directory name)
    (h : Alike task directory name (.writing content) t now)
    (hwrite : now.files.write task.localPath content = .error e) :
    t.files.write task.localPath content = .error e := by
  have hmap := h.map_write hn
  rw [hwrite] at hmap
  cases hw : t.files.write task.localPath content with
  | error e' =>
    rw [hw] at hmap
    cases hmap
    rfl
  | ok files =>
    rw [hw] at hmap
    cases hmap

/-- The file is written alike. -/
theorem write (hn : Names task directory name)
    (h : Alike task directory name (.writing content) t now)
    (hwrite : now.files.write task.localPath content = .ok files') :
    ∃ files, t.files.write task.localPath content = .ok files ∧
      Alike task directory name (.ended (.ok ())) { t with files }
        { now with files := files' } := by
  have hmap := h.map_write hn
  rw [hwrite] at hmap
  cases hw : t.files.write task.localPath content with
  | error e =>
    rw [hw] at hmap
    cases hmap
  | ok files =>
    rw [hn.path] at hw hwrite
    obtain ⟨hset, hentry⟩ := Files.of_write_straight hn.normal (h.linkless.1.straight _ _) hw
    obtain ⟨hset', hentry'⟩ :=
      Files.of_write_straight hn.normal (h.linkless.2.straight _ _) hwrite
    refine ⟨files, rfl, ?_⟩
    exact
      { failure := h.failure
        place := by
          have hspecial : files.entry? (target directory name) = some .special ↔
              t.files.entry? (target directory name) = some .special := hset.special_iff
          have hspecial' : Files.entry? files' (target directory name) = some .special ↔
              now.files.entry? (target directory name) = some .special := hset'.special_iff
          have hplace := h.place
          grind [target]
        more := fun path hpath =>
          hset'.directory (h.more path ((hset.directory_iff False.elim).1 hpath))
        blocked := fun q hq => by
          have hne : q ≠ target directory name := fun e =>
            Files.not_append_isPrefix_self _ _ (e ▸ hq)
          rw [hset.blocked_iff fun e => absurd e hne, hset'.blocked_iff fun e => absurd e hne]
          exact h.blocked q hq
        linkless := ⟨hset.linkless h.linkless.1, hset'.linkless h.linkless.2⟩
        led := by
          have hled := h.led
          rw [hn.path] at hled ⊢
          rintro hupload f (rfl | rfl)
          · exact hset.locateFor hn.normal (hled hupload _ (.inl rfl))
          · exact hset'.locateFor hn.normal (hled hupload _ (.inr rfl))
        way := fun _ h => by cases h }

/-- Where sites are alike for an operation it takes the same step, and they are alike still.  To
begin, a get finds the same object in both. -/
theorem move (hn : Names task directory name) (h : Alike task directory name stage t now)
    (hobject : stage = .waiting → task.direction = .download → now.objectOf task = t.objectOf task)
    (hsuits : stage.Suits task.direction) (hmove : Move task now stage stage' next) :
    ∃ t', Move task t stage stage' t' ∧ Alike task directory name stage' t' next := by
  have hfailure := h.failure
  cases hmove with
  | failing hfails =>
    rw [hfailure] at hfails
    exact ⟨t, .failing hfails, h.keep fun _ e => by cases e⟩
  | missing hsound hdownload hmissing =>
    rw [hfailure] at hsound
    rw [← objectOf, hobject rfl hdownload] at hmissing
    exact ⟨t, .missing hsound hdownload hmissing, h.keep fun _ e => by cases e⟩
  | put hsound hupload =>
    rw [hfailure] at hsound
    exact ⟨t, .put hsound hupload, h.keep fun _ e => by cases e⟩
  | get hsound hdownload hthere =>
    rw [hfailure] at hsound
    rw [← objectOf, hobject rfl hdownload] at hthere
    exact ⟨t, .get hsound hdownload hthere, h.keep fun _ e => by cases e⟩
  | unread hread =>
    rw [h.read_eq hsuits] at hread
    exact ⟨t, .unread hread, h.keep fun _ e => by cases e⟩
  | read hread =>
    rw [h.read_eq hsuits] at hread
    exact ⟨t, .read hread, h.keep fun _ e => by cases e⟩
  | stored content =>
    have hkept : Alike task directory name (.ended (.ok ())) t now := h.keep fun _ e => by cases e
    exact ⟨_, .stored content, { hkept with }⟩
  | @unmade content e files' hmake' =>
    rcases hmake : t.files.makeDirectories (Path.parentText task.localPath) with ⟨outcome, files⟩
    obtain ⟨rfl, halike, -⟩ := h.make hn (.ended (.error e.thrown)) hmake hmake'
      fun _ hstage => by cases hstage
    exact ⟨_, .unmade hmake, halike⟩
  | @made content place files' hmake' =>
    rcases hmake : t.files.makeDirectories (Path.parentText task.localPath) with ⟨outcome, files⟩
    obtain ⟨rfl, halike, -⟩ := h.make hn (.writing content) hmake hmake'
      fun _ _ => ⟨_, rfl⟩
    exact ⟨_, .made hmake, halike⟩
  | unwritten hwrite =>
    exact ⟨t, .unwritten (h.write_error hn hwrite), h.keep fun _ e => by cases e⟩
  | written hwrite =>
    obtain ⟨files, hwrite', halike⟩ := h.write hn hwrite
    exact ⟨_, .written hwrite', halike⟩

/-! ## Steps of other operations -/

variable {made written : Path → Prop}

/-- Sites stay alike for an operation when directories are made and files set that keep off its own
file and off the way down to it. -/
theorem frame (hn : Names task directory name) (h : Alike task directory name stage t now)
    (hfailure : next.store.failureOf task.objectName = now.store.failureOf task.objectName)
    (hbuilds : Files.Builds made written now.files next.files)
    (hmade : made (target directory name) → now.files.entry? (target directory name) ≠ none)
    (hwritten : ¬ written (target directory name))
    (hway : ∀ q, q <+: directory.map Text.stored → written q → now.files.entry? q ≠ none) :
    Alike task directory name stage t next where
  failure := hfailure.trans h.failure
  place := (hbuilds.entry?_eq_of hmade hwritten).trans h.place
  more := fun path hpath => hbuilds.directory (h.more path hpath)
  blocked := fun q hq => (h.blocked q hq).trans (hbuilds.blocked_iff (hway q hq)).symm
  linkless := ⟨h.linkless.1, hbuilds.linkless h.linkless.2⟩
  led := by
    have hled := h.led
    rw [hn.path] at hled ⊢
    rintro hupload f (rfl | rfl)
    · exact hled hupload _ (.inl rfl)
    · exact hbuilds.locateFor hn.normal (hled hupload _ (.inr rfl))
  way := h.way

end Alike

/-- Writing the file leaves the directories. -/
theorem directory_rest {t : Site} {task : Task} {directory : Path} {name : Text} {content : Bytes}
    (hn : Names task directory name) (hlinkless : t.files.Linkless) {path : Path}
    (h : t.files.entry? path = some .directory) :
    Files.entry? (rest task t (.writing content)).2.files path = some .directory := by
  cases hwrite : t.files.write task.localPath content with
  | error e =>
    rw [← (Move.unwritten hwrite).rest_eq]
    exact h
  | ok files =>
    rw [← (Move.written hwrite).rest_eq]
    rw [hn.path] at hwrite
    exact (Files.of_write_straight hn.normal (hlinkless.straight _ _) hwrite).1.directory h

/-- A step makes directories only where there are some once its operation alone has done the rest of
its work, and it sets no file but that of a get. -/
theorem Alike.builds {t now next : Site} {task : Task} {stage stage' : Stage} {directory : Path}
    {name : Text} (hn : Names task directory name) (h : Alike task directory name stage t now)
    (hsuits : stage.Suits task.direction) (hmove : Move task now stage stage' next) :
    Files.Builds (fun path => Files.entry? (rest task t stage).2.files path = some .directory)
      (fun path => task.direction = .download ∧ path = target directory name)
      now.files next.files := by
  cases hmove with
  | unmade hmake' =>
    rcases hmake : t.files.makeDirectories (Path.parentText task.localPath) with ⟨outcome, files⟩
    obtain ⟨rfl, -, hbuilds⟩ := h.make hn .waiting hmake hmake' fun _ e => by cases e
    rw [← (Move.unmade hmake).rest_eq]
    exact hbuilds.mono (fun _ => id) fun _ => False.elim
  | made hmake' =>
    rcases hmake : t.files.makeDirectories (Path.parentText task.localPath) with ⟨outcome, files⟩
    obtain ⟨rfl, halike, hbuilds⟩ := h.make hn .waiting hmake hmake'
      fun _ e => by cases e
    rw [← (Move.made hmake).rest_eq]
    exact hbuilds.mono (fun _ => directory_rest hn halike.linkless.1) fun _ => False.elim
  | written hwrite =>
    rw [hn.path] at hwrite
    obtain ⟨hset, -⟩ := Files.of_write_straight hn.normal (h.linkless.2.straight _ _) hwrite
    exact hset.mono (fun _ => False.elim) fun _ heq => ⟨hsuits, heq⟩
  | _ => exact .refl _ _ _

end Site

end BulkTransfer
