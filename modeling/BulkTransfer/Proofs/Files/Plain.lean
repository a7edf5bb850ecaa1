import BulkTransfer.Files.Access
import BulkTransfer.Proofs.Path.Stored

/-!
# Files without links

Among regular files and directories only, a path in normal form leads to the place that its stored
components name, as soon as all directories on the way are there (`locateFor_text_iff`).  Making
directories changes no file, and writing a file changes one path only (`of_writeUnder_ok`,
`grows_of_writeUnder_error`); what was a directory stays one.  So a file that was written is read
back, whatever is made or written at other paths later (`read_of_reaches`).
-/

namespace BulkTransfer

namespace Files

/-- There are regular files and directories only. -/
def Plain (f : Files) : Prop :=
  ∀ path entry, f.entry? path = some entry → entry = .directory ∨ ∃ content, entry = .file content

/-- Other files grew out of these: directories stay, and away from the touched paths the regular
files are the same. -/
structure Grows (touched : Path → Prop) (f g : Files) : Prop where
  cwd : g.cwd = f.cwd
  directory : ∀ {path}, f.entry? path = some .directory → g.entry? path = some .directory
  file : ∀ {path}, ¬ touched path →
    ∀ content, g.entry? path = some (.file content) ↔ f.entry? path = some (.file content)
  plain : f.Plain → g.Plain

/-- All directories on the way down some components are there, and no name is too long. -/
def Open (f : Files) : Path → List Text → Prop
  | _, [] => True
  | base, name :: rest =>
    isTooLong name = false ∧ (rest = [] ∨ f.entry? (base ++ [name]) = some .directory) ∧
      Open f (base ++ [name]) rest

/-- The text of a path can be used, and leads to where the path's stored components are. -/
structure Reaches (f : Files) (p : Path) : Prop where
  usable : isUsable (Path.text p) = true
  short : isOverlong (Path.text p) = false
  isOpen : f.Open [] (p.map Text.stored)

variable {f g h : Files} {touched : Path → Prop}

/-! ## Setting entries -/

theorem entry?_of_ne_nil (f : Files) {path : Path} (hpath : path ≠ []) :
    f.entry? path = f.entries.find? path :=
  if_neg hpath

theorem ne_nil_of_not_directory {path : Path} (hd : f.entry? path ≠ some .directory) :
    path ≠ [] := by
  rintro rfl
  exact hd rfl

theorem entry?_set_self (f : Files) {path : Path} (hpath : path ≠ []) (entry : Entry) :
    Files.entry? (f.set path entry) path = some entry := by
  rw [entry?_of_ne_nil _ hpath, set, OrderedMap.find?_insert, if_pos (beq_self_eq_true path)]

theorem entry?_set_of_ne (f : Files) {path other : Path} (hne : other ≠ path) (entry : Entry) :
    Files.entry? (f.set path entry) other = f.entry? other := by
  by_cases hother : other = []
  · rw [hother]
    rfl
  · have hbeq : (other == path) = false := by simpa using hne
    rw [entry?_of_ne_nil _ hother, entry?_of_ne_nil _ hother, set, OrderedMap.find?_insert, hbeq,
      if_neg Bool.false_ne_true]

theorem Grows.refl (touched : Path → Prop) (f : Files) : Grows touched f f :=
  ⟨rfl, id, fun _ _ => .rfl, id⟩

theorem Grows.trans (hfg : Grows touched f g) (hgh : Grows touched g h) : Grows touched f h where
  cwd := hgh.cwd.trans hfg.cwd
  directory := fun hd => hgh.directory (hfg.directory hd)
  file := fun haway content => (hgh.file haway content).trans (hfg.file haway content)
  plain := fun hp => hgh.plain (hfg.plain hp)

theorem plain_set {path : Path} {entry : Entry} (hplain : f.Plain)
    (hentry : entry = .directory ∨ ∃ content, entry = .file content) :
    (f.set path entry).Plain := by
  intro other found hfound
  by_cases hother : other = path
  · subst hother
    by_cases hnil : other = []
    · subst hnil
      exact .inl (Option.some.inj hfound).symm
    · rw [entry?_set_self f hnil] at hfound
      exact Option.some.inj hfound ▸ hentry
  · rw [entry?_set_of_ne f hother] at hfound
    exact hplain other found hfound

theorem grows_set_directory {path : Path} (hnone : f.entry? path = none) :
    Grows touched f (f.set path .directory) where
  cwd := rfl
  directory := fun {other} hd => by
    have hne : other ≠ path := fun e => by rw [e, hnone] at hd; cases hd
    rwa [entry?_set_of_ne f hne]
  file := fun {other} _ content => by
    by_cases hother : other = path
    · have hpath : path ≠ [] := ne_nil_of_not_directory (f := f) (by simp [hnone])
      simp [hother, entry?_set_self f hpath, hnone]
    · rw [entry?_set_of_ne f hother]
  plain := fun hplain => plain_set hplain (.inl rfl)

/-- A file at a path that is no directory changes no other path. -/
theorem grows_set_file {path : Path} (hd : f.entry? path ≠ some .directory) (content : Bytes) :
    Grows (· = path) f (f.set path (.file content)) where
  cwd := rfl
  directory := fun {other} hother => by
    have hne : other ≠ path := fun e => hd (e ▸ hother)
    rwa [entry?_set_of_ne f hne]
  file := fun haway content' => by rw [entry?_set_of_ne f haway]
  plain := fun hplain => plain_set hplain (.inr ⟨content, rfl⟩)

/-! ## Making directories -/

theorem grows_descend (touched : Path → Prop) (f : Files) (links : Nat) (base : Path)
    (rest : List Text) : Grows touched f (f.descend links base rest).2 := by
  -- Only one case changes the files: the one where a name is missing.
  fun_induction descend f links base rest with
  | case5 f links base name rest hskip hdots hlong hnone ih =>
    exact (grows_set_directory hnone).trans ih
  | _ => first | assumption | exact .refl _ _

theorem grows_makeDirectories (touched : Path → Prop) (f : Files) (t : Text) :
    Grows touched f (f.makeDirectories t).2 := by
  rw [makeDirectories]
  split
  · exact .refl _ _
  · split
    · exact .refl _ _
    · exact grows_descend touched f linkLimit [] (f.components t)

/-! ## Following paths -/

theorem Open.mono (hgrows : Grows touched f g) {base : Path} {names : List Text}
    (hopen : f.Open base names) : g.Open base names := by
  induction names generalizing base with
  | nil => trivial
  | cons name rest ih =>
    obtain ⟨hshort, hway, hrest⟩ := hopen
    exact ⟨hshort, hway.imp_right hgrows.directory, ih hrest⟩

theorem Reaches.mono (hgrows : Grows touched f g) {p : Path} (hreaches : f.Reaches p) :
    g.Reaches p :=
  { hreaches with isOpen := hreaches.isOpen.mono hgrows }

theorem endsInSlash_of_isNormal {name : Text} {rest : List Text}
    (hnormal : Path.IsNormal (name :: rest)) : endsInSlash rest = false := by
  cases rest with
  | nil => rfl
  | cons next more =>
    have hne : next ≠ [] := (hnormal next (by simp)).ne_nil
    simp [endsInSlash, hne]

theorem walk_cons (hplain : f.Plain) (aim : Aim) (base : Path) {name : Text} {rest : List Text}
    (hnormal : Path.IsNormal (name :: rest)) :
    f.walk aim base (name :: rest) =
      if isTooLong name then .failed .nameTooLong
      else if f.entry? (base ++ [name]) = some .directory then f.walk aim (base ++ [name]) rest
      else if rest = [] then .arrived (base ++ [name])
      else if f.entry? (base ++ [name]) = none then .failed .noEntry
      else .failed .notDirectory := by
  have hname : Path.IsName name := hnormal name List.mem_cons_self
  rw [walk, if_neg (by simp [hname.ne_nil, hname.ne_dot]), if_neg hname.ne_dots,
    if_neg (by simp [endsInSlash_of_isNormal hnormal])]
  cases he : f.entry? (base ++ [name]) with
  | none => simp [List.isEmpty_iff]
  | some entry =>
    rcases hplain _ entry he with rfl | ⟨content, rfl⟩
    · simp
    · simp [List.isEmpty_iff]

/-- Names lead to their place when all directories on the way are there, and nowhere else. -/
theorem walk_eq_arrived_iff (hplain : f.Plain) (aim : Aim) {names : List Text}
    (hnormal : Path.IsNormal names) (base : Path) {place : Path} :
    f.walk aim base names = .arrived place ↔ place = base ++ names ∧ f.Open base names := by
  induction names generalizing base with
  | nil => simp [walk, Open, eq_comm]
  | cons name rest ih =>
    have hrest : Path.IsNormal rest := fun other hother =>
      hnormal other (List.mem_cons_of_mem _ hother)
    rw [walk_cons hplain aim base hnormal, Open]
    by_cases hlong : isTooLong name = true
    · simp [hlong]
    by_cases hd : f.entry? (base ++ [name]) = some .directory
    · simp [hlong, hd, ih hrest]
    by_cases hlast : rest = []
    · subst hlast
      simp [hlong, hd, Open, eq_comm]
    · by_cases hnone : f.entry? (base ++ [name]) = none <;> simp [hlong, hd, hlast, hnone]

theorem walk_ne_detour (hplain : f.Plain) (aim : Aim) {names : List Text}
    (hnormal : Path.IsNormal names) (base start : Path) (rest : List Text) :
    f.walk aim base names ≠ .detour start rest := by
  induction names generalizing base with
  | nil => simp [walk]
  | cons name more ih =>
    have hmore : Path.IsNormal more := fun other hother =>
      hnormal other (List.mem_cons_of_mem _ hother)
    rw [walk_cons hplain aim base hnormal]
    split
    · simp
    · split
      · exact ih hmore _
      · split
        · simp
        · split <;> simp

theorem pieces_text (p : Path) :
    pieces (Path.text p) =
      [] :: Text.split Text.slash (Text.joinWith [Text.slash] (p.map Text.stored)) := by
  rw [pieces, Path.stored_text, Path.split_text]

/-- The slash at the start of a path stays at the root, and the stored components go down from
there. -/
theorem walk_pieces_text (f : Files) (aim : Aim) {p : Path} (hp : p.IsNormal) :
    f.walk aim [] (pieces (Path.text p)) = f.walk aim [] (p.map Text.stored) := by
  rw [pieces_text, walk, if_pos (.inl rfl)]
  cases p with
  | nil => simp [Text.joinWith, Text.split, walk]
  | cons name rest =>
    rw [Text.split_joinWith (by simp) fun piece hpiece => (hp.stored piece hpiece).no_slash]

theorem place_text_eq_ok_iff (hplain : f.Plain) (aim : Aim) {p : Path} (hp : p.IsNormal)
    {place : Path} :
    f.place aim (f.components (Path.text p)) = .ok place ↔
      place = p.map Text.stored ∧ f.Open [] (p.map Text.stored) := by
  have hcomponents : f.components (Path.text p) = pieces (Path.text p) := by
    rw [components, if_pos (Path.isAbsolute_text p), List.nil_append]
  have hwalk : f.walk aim [] (p.map Text.stored) = .arrived place ↔
      place = p.map Text.stored ∧ f.Open [] (p.map Text.stored) :=
    walk_eq_arrived_iff hplain aim hp.stored []
  -- Without links the first walk arrives or fails, so how many detours are allowed is no matter.
  rw [hcomponents, ← hwalk, Files.place, linkLimit, follow, walk_pieces_text f aim hp]
  cases hw : f.walk aim [] (p.map Text.stored) with
  | arrived path => simp [Except.map]
  | failed fault => simp [Except.map]
  | detour base rest => exact absurd hw (walk_ne_detour hplain aim hp.stored [] base rest)

/-- The text of a path leads to the place of its stored components. -/
theorem locateFor_text_iff (hplain : f.Plain) (call : FileCall) (aim : Aim) {p : Path}
    (hp : p.IsNormal) {place : Path} :
    f.locateFor call aim (Path.text p) = .ok place ↔ place = p.map Text.stored ∧ f.Reaches p := by
  have hplace : f.place aim (f.components (Path.text p)) = .ok place ↔ _ :=
    place_text_eq_ok_iff hplain aim hp
  have hne : Path.text p ≠ [] := by simp [Path.text]
  have hmap : ∀ (outcome : Except FileFault Path) (error : FileFault → FileError),
      outcome.mapError error = .ok place ↔ outcome = .ok place := by
    intro outcome error
    cases outcome with
    | error fault => exact iff_of_false (fun h => by cases h) (fun h => by cases h)
    | ok path => exact ⟨fun h => by cases h; rfl, fun h => by cases h; rfl⟩
  rw [locateFor, locate, if_neg hne]
  by_cases husable : isUsable (Path.text p) = true
  · by_cases hlong : isOverlong (Path.text p) = true
    · rw [if_pos husable, if_pos hlong, hmap]
      exact iff_of_false (by simp) fun h => by simp [h.2.short] at hlong
    · rw [if_pos husable, if_neg hlong, hmap, hplace]
      refine and_congr_right fun _ => ⟨fun hopen => ⟨husable, by simpa using hlong, hopen⟩, ?_⟩
      exact fun h => h.isOpen
  · rw [if_neg husable]
    exact iff_of_false (by simp) fun h => husable h.2.usable

theorem read_of_reaches (hplain : f.Plain) {p : Path} (hp : p.IsNormal) (hreaches : f.Reaches p)
    {content : Bytes} (hfile : f.entry? (p.map Text.stored) = some (.file content)) :
    f.read (Path.text p) = .ok content := by
  rw [read, (locateFor_text_iff hplain .openFile .use hp).2 ⟨rfl, hreaches⟩]
  simp only [hfile]

/-! ## Writing files -/

/-- Writing makes or changes the file at the path's place, and nothing else. -/
theorem of_write_ok (hplain : f.Plain) {p : Path} (hp : p.IsNormal) {content : Bytes}
    (hwrite : f.write (Path.text p) content = .ok g) :
    Grows (· = p.map Text.stored) f g ∧ g.Reaches p ∧
      g.entry? (p.map Text.stored) = some (.file content) := by
  rw [write] at hwrite
  cases hl : f.locateFor .openFile .make (Path.text p) with
  | error e => rw [hl] at hwrite; cases hwrite
  | ok place =>
    obtain ⟨rfl, hreaches⟩ := (locateFor_text_iff hplain .openFile .make hp).1 hl
    rw [hl] at hwrite
    have hd : f.entry? (p.map Text.stored) ≠ some .directory := by
      intro hd
      simp [hd] at hwrite
    have hset : f.set (p.map Text.stored) (.file content) = g := by
      cases he : f.entry? (p.map Text.stored) with
      | none => simpa [he] using hwrite
      | some entry =>
        rcases hplain _ entry he with rfl | ⟨old, rfl⟩
        · exact absurd he hd
        · simpa [he] using hwrite
    subst hset
    have hgrows := grows_set_file hd content
    exact ⟨hgrows, hreaches.mono hgrows, entry?_set_self f (ne_nil_of_not_directory hd) _⟩

/-- Content that is written after making directories stands at the path's place, and no other file
has changed. -/
theorem of_writeUnder_ok (hplain : f.Plain) {p : Path} (hp : p.IsNormal) {content : Bytes}
    (hwrite : f.writeUnder (Path.text p) content = (.ok (), g)) :
    Grows (· = p.map Text.stored) f g ∧ g.Reaches p ∧
      g.entry? (p.map Text.stored) = some (.file content) := by
  have hmade := grows_makeDirectories (· = p.map Text.stored) f (Path.parentText (Path.text p))
  rw [writeUnder] at hwrite
  generalize f.makeDirectories (Path.parentText (Path.text p)) = made at hmade hwrite
  obtain ⟨outcome, middle⟩ := made
  cases outcome with
  | error e => cases hwrite
  | ok place =>
    cases hw : middle.write (Path.text p) content with
    | error e => simp [hw] at hwrite
    | ok written =>
      obtain rfl : written = g := by simpa [hw] using hwrite
      obtain ⟨hgrows, hrest⟩ := of_write_ok (hmade.plain hplain) hp hw
      exact ⟨hmade.trans hgrows, hrest⟩

/-- A write that fails has changed no file. -/
theorem grows_of_writeUnder_error (touched : Path → Prop) {t : Text} {content : Bytes}
    {error : FileError} (hwrite : f.writeUnder t content = (.error error, g)) :
    Grows touched f g := by
  have hmade := grows_makeDirectories touched f (Path.parentText t)
  rw [writeUnder] at hwrite
  generalize f.makeDirectories (Path.parentText t) = made at hmade hwrite
  obtain ⟨outcome, middle⟩ := made
  cases outcome with
  | error e => cases hwrite; exact hmade
  | ok place =>
    cases hw : middle.write t content with
    | error e =>
      obtain ⟨-, rfl⟩ : _ ∧ middle = g := by simpa [hw] using hwrite
      exact hmade
    | ok written => simp [hw] at hwrite

theorem standing_text (f : Files) {p : Path} (hp : p.IsNormal) :
    f.standing (Path.text p) = p.map Text.stored := by
  rw [standing, Path.stored_text, Path.resolve_text _ hp.stored]

end Files

end BulkTransfer
