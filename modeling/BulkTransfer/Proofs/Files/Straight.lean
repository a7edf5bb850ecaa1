import BulkTransfer.Proofs.Files.Opening

/-!
# Ways without links

Names that meet no link lead straight down (`eq_append_of_follow`).  What becomes of a write on such
a way depends only on where the way is blocked and on whether a directory stands at its end
(`writeUnder_congr`); it makes directories on the way and sets the file at its end
(`of_writeUnder_straight`).
-/

namespace BulkTransfer

namespace Files

/-- No link stands on the way down some names. -/
def Straight (f : Files) (base : Path) (names : List Text) : Prop :=
  ∀ q, q <+: names → q ≠ [] → ∀ target, f.entry? (base ++ q) ≠ some (.link target)

/-- No entry is a link. -/
def Linkless (f : Files) : Prop := ∀ path target, f.entry? path ≠ some (.link target)

/-- What stands at a path is in the way of a directory there. -/
def Blocked (f : Files) (path : Path) : Prop :=
  f.entry? path ≠ none ∧ f.entry? path ≠ some .directory

variable {f g : Files} {aim : Aim} {base place : Path} {name : Text} {names rest : List Text}
  {made written : Path → Prop}

/-! ## Prefixes of names -/

theorem straight_cons :
    f.Straight base (name :: rest) ↔
      (∀ target, f.entry? (base ++ [name]) ≠ some (.link target)) ∧
        f.Straight (base ++ [name]) rest := by
  constructor
  · intro h
    refine ⟨h [name] ⟨rest, rfl⟩ (List.cons_ne_nil _ _), fun q hq hne => ?_⟩
    rw [List.append_assoc]
    exact h (name :: q) (List.cons_prefix_cons.2 ⟨rfl, hq⟩) (List.cons_ne_nil _ _)
  · rintro ⟨hfirst, hrest⟩ q hq hne
    obtain ⟨other, q, rfl⟩ := List.exists_cons_of_ne_nil hne
    obtain ⟨rfl, hprefix⟩ := List.cons_prefix_cons.1 hq
    by_cases hnil : q = []
    · rwa [hnil]
    · have hsplit : base ++ other :: q = base ++ [other] ++ q := by simp
      rw [hsplit]
      exact hrest q hprefix hnil

theorem Straight.of_append (h : f.Straight base (names ++ rest)) : f.Straight base names :=
  fun q hq => h q (hq.trans (List.prefix_append _ _))

theorem Builds.straight (hfg : Builds made written f g) (h : f.Straight base names) :
    g.Straight base names := by
  intro q hq hne target
  rw [Ne, hfg.link_iff]
  exact h q hq hne target

theorem Linkless.straight (h : f.Linkless) (base : Path) (names : List Text) :
    f.Straight base names :=
  fun _ _ _ target => h _ target

theorem linkless_of_entries (h : ∀ x ∈ f.entries.pairs, ∀ target, x.2 ≠ .link target) :
    f.Linkless := by
  intro path target hlink
  by_cases hpath : path = []
  · subst hpath
    cases hlink
  · rw [entry?_of_ne_nil f hpath, OrderedMap.find?, List.lookup_eq_some_iff] at hlink
    obtain ⟨before, after, hpairs, -⟩ := hlink
    exact h (path, .link target) (by simp [hpairs]) target rfl

theorem Builds.linkless (hfg : Builds made written f g) (h : f.Linkless) : g.Linkless := by
  intro path target
  rw [Ne, hfg.link_iff]
  exact h path target

/-- A path is blocked as before, unless a file was set where nothing stood. -/
theorem Builds.blocked_iff (hfg : Builds made written f g) {path : Path}
    (h : written path → f.entry? path ≠ none) : g.Blocked path ↔ f.Blocked path := by
  have hchange := hfg.change path
  rw [Blocked, Blocked]
  generalize f.entry? path = before at hchange h ⊢
  generalize g.entry? path = after at hchange ⊢
  cases hchange with
  | same => rfl
  | made => simp
  | created hw => exact absurd rfl (h hw)
  | replaced => simp

theorem Builds.directory_iff (hfg : Builds made written f g) {path : Path}
    (h : made path → f.entry? path ≠ none) :
    g.entry? path = some .directory ↔ f.entry? path = some .directory := by
  refine ⟨fun hd => ?_, hfg.directory⟩
  have hchange := hfg.change path
  rw [hd] at hchange
  generalize f.entry? path = before at hchange h ⊢
  cases hchange with
  | same => rfl
  | made hm => exact absurd rfl (h hm)

theorem Builds.special_iff (hfg : Builds made written f g) {path : Path} :
    g.entry? path = some .special ↔ f.entry? path = some .special := by
  have hchange := hfg.change path
  generalize f.entry? path = before at hchange ⊢
  generalize g.entry? path = after at hchange ⊢
  cases hchange <;> simp

/-- What stands at a path stays, unless a directory is made where nothing stood or a file is set. -/
theorem Builds.entry?_eq_of (hfg : Builds made written f g) {path : Path}
    (hmade : made path → f.entry? path ≠ none) (hwritten : ¬ written path) :
    g.entry? path = f.entry? path := by
  have hchange := hfg.change path
  generalize f.entry? path = before at hchange hmade ⊢
  generalize g.entry? path = after at hchange ⊢
  cases hchange with
  | same => rfl
  | made h => exact absurd rfl (hmade h)
  | created h => exact absurd h hwritten
  | replaced h => exact absurd h hwritten

theorem Builds.entry?_eq (hfg : Builds made written f g) {path : Path} (hmade : ¬ made path)
    (hwritten : ¬ written path) : g.entry? path = f.entry? path :=
  hfg.entry?_eq_of (fun h => absurd h hmade) hwritten

/-- A path goes on to lead where it leads. -/
theorem Builds.locateFor (hfg : Builds made written f g) {p : Path} (hp : p.IsNormal)
    {call : FileCall} (h : f.locateFor call aim (Path.text p) = .ok place) :
    g.locateFor call aim (Path.text p) = .ok place := by
  obtain ⟨hfits, left, hfollow⟩ := (locateFor_eq_ok_iff call hp).1 h
  exact (locateFor_eq_ok_iff call hp).2 ⟨hfits, left, hfg.follow hfollow⟩

theorem isStep_of_isName (hname : Path.IsName name) (hshort : isTooLong name = false) :
    IsStep name :=
  ⟨hname.ne_nil, hname.ne_dot, hname.ne_dots, hshort⟩

/-! ## Following -/

theorem walk_too_long (hname : Path.IsName name) (hlong : isTooLong name = true)
    (haim : aim = .make → endsInSlash rest = false) :
    f.walk aim base (name :: rest) = .failed .nameTooLong := by
  have hgo : ¬ (name = [] ∨ name = Path.dot) := by simp [hname.ne_nil, hname.ne_dot]
  have hends : ¬ (aim = .make ∧ endsInSlash rest = true) := by
    rintro ⟨hmake, hends⟩
    rw [haim hmake] at hends
    cases hends
  rw [walk, if_neg hgo, if_neg hname.ne_dots, if_neg hends, if_pos hlong]

/-- Names that meet no link lead straight down, if anywhere. -/
theorem eq_append_of_follow (hnames : Path.IsNormal names) (hstraight : f.Straight base names)
    {fuel left : Nat} (h : f.follow aim fuel base names = .ok (place, left)) :
    place = base ++ names := by
  induction names generalizing base with
  | nil =>
    cases fuel with
    | zero => cases h
    | succ fuel => cases h; exact (List.append_nil _).symm
  | cons name rest ih =>
    have hname : Path.IsName name := hnames name List.mem_cons_self
    have hrest := hnames.of_cons
    obtain ⟨hlink, hmore⟩ := straight_cons.1 hstraight
    have haim : aim = .make → endsInSlash rest = false := fun _ => endsInSlash_of_isNormal hnames
    by_cases hlong : isTooLong name = true
    · cases fuel with
      | zero => cases h
      | succ fuel =>
        rw [follow, walk_too_long hname hlong haim] at h
        cases h
    have hstep := isStep_of_isName hname (by simpa using hlong)
    by_cases hd : f.entry? (base ++ [name]) = some .directory
    · rw [follow_down hstep haim hd] at h
      rw [ih hrest hmore h, List.append_assoc, List.singleton_append]
    · cases fuel with
      | zero => cases h
      | succ fuel =>
        rw [follow] at h
        rcases walk_end hstep haim hd hlink with ⟨rfl, hwalk⟩ | ⟨fault, hwalk⟩
        · rw [hwalk] at h
          cases h
          rfl
        · rw [hwalk] at h
          cases h

/-! ## Making directories -/

theorem descend_blocked (hname : IsStep name) (hblocked : f.Blocked (base ++ [name]))
    (hlink : ∀ target, f.entry? (base ++ [name]) ≠ some (.link target)) (links : Nat)
    (rest : List Text) : f.descend links base (name :: rest) = (.error (obstacle rest), f) := by
  rw [descend, if_neg (by simp [hname.ne_nil, hname.ne_dot]), if_neg hname.ne_dots,
    if_neg (by simp [hname.short])]
  cases he : f.entry? (base ++ [name]) with
  | none => exact absurd he hblocked.1
  | some entry =>
    cases entry with
    | file content => rfl
    | directory => exact absurd he hblocked.2
    | link target => exact absurd he (hlink target)
    | special => rfl

theorem exists_descend_cons (hname : IsStep name) (hfree : ¬ f.Blocked (base ++ [name]))
    (written : Path → Prop) (links : Nat) (rest : List Text) :
    ∃ g, f.descend links base (name :: rest) = g.descend links (base ++ [name]) rest ∧
      Builds (· = base ++ [name]) written f g ∧
        g.entry? (base ++ [name]) = some .directory := by
  rw [descend, if_neg (by simp [hname.ne_nil, hname.ne_dot]), if_neg hname.ne_dots,
    if_neg (by simp [hname.short])]
  by_cases hnone : f.entry? (base ++ [name]) = none
  · refine ⟨f.set (base ++ [name]) .directory, by rw [hnone], builds_set_directory hnone rfl, ?_⟩
    exact entry?_set_self f (by simp) _
  · have hd : f.entry? (base ++ [name]) = some .directory :=
      Decidable.byContradiction fun hd => hfree ⟨hnone, hd⟩
    exact ⟨f, by rw [hd], .refl _ _ _, hd⟩

theorem descend_too_long (hname : Path.IsName name) (hlong : isTooLong name = true) (links : Nat)
    (base : Path) (rest : List Text) :
    f.descend links base (name :: rest) = (.error .nameTooLong, f) := by
  rw [descend, if_neg (by simp [hname.ne_nil, hname.ne_dot]), if_neg hname.ne_dots, if_pos hlong]

/-- What going down a way without links gives depends only on where the way is blocked. -/
theorem descend_congr (hnames : Path.IsNormal names) (hf : f.Straight base names)
    (hg : g.Straight base names)
    (h : ∀ q, q <+: names → q ≠ [] → (f.Blocked (base ++ q) ↔ g.Blocked (base ++ q)))
    (links : Nat) : (f.descend links base names).1 = (g.descend links base names).1 := by
  induction names generalizing f g base with
  | nil => rfl
  | cons name rest ih =>
    have hname : Path.IsName name := hnames name List.mem_cons_self
    by_cases hlong : isTooLong name = true
    · rw [descend_too_long hname hlong, descend_too_long hname hlong]
    have hstep := isStep_of_isName hname (by simpa using hlong)
    obtain ⟨hflink, hf⟩ := straight_cons.1 hf
    obtain ⟨hglink, hg⟩ := straight_cons.1 hg
    have hfirst := h [name] ⟨rest, rfl⟩ (List.cons_ne_nil _ _)
    by_cases hblocked : f.Blocked (base ++ [name])
    · rw [descend_blocked hstep hblocked hflink, descend_blocked hstep (hfirst.1 hblocked) hglink]
    · obtain ⟨f', hdf, hff, -⟩ := exists_descend_cons hstep hblocked (fun _ => False) links rest
      obtain ⟨g', hdg, hgg, -⟩ := exists_descend_cons hstep (fun hb => hblocked (hfirst.2 hb))
        (fun _ => False) links rest
      rw [hdf, hdg]
      refine ih hnames.of_cons (hff.straight hf) (hgg.straight hg) fun q hq hne => ?_
      rw [hff.blocked_iff False.elim, hgg.blocked_iff False.elim, List.append_assoc]
      exact h (name :: q) (List.cons_prefix_cons.2 ⟨rfl, hq⟩) (List.cons_ne_nil _ _)

/-- Going down a way without links makes directories on the way only, and ends below. -/
theorem of_descend_straight (hnames : Path.IsNormal names) (hf : f.Straight base names)
    (written : Path → Prop) {links : Nat} {outcome : Except FileFault Path}
    (h : f.descend links base names = (outcome, g)) :
    Builds (fun path => ∃ q, q <+: names ∧ q ≠ [] ∧ path = base ++ q) written f g ∧
      ∀ place, outcome = .ok place → place = base ++ names := by
  induction names generalizing f base with
  | nil =>
    cases h
    exact ⟨.refl _ _ _, fun place e => by rw [List.append_nil]; exact (Except.ok.inj e).symm⟩
  | cons name rest ih =>
    have hname : Path.IsName name := hnames name List.mem_cons_self
    by_cases hlong : isTooLong name = true
    · rw [descend_too_long hname hlong] at h
      cases h
      exact ⟨.refl _ _ _, fun place e => by cases e⟩
    have hstep := isStep_of_isName hname (by simpa using hlong)
    obtain ⟨hlink, hf⟩ := straight_cons.1 hf
    by_cases hblocked : f.Blocked (base ++ [name])
    · rw [descend_blocked hstep hblocked hlink] at h
      cases h
      exact ⟨.refl _ _ _, fun place e => by cases e⟩
    · obtain ⟨f', hdescend, hbuilds, -⟩ := exists_descend_cons hstep hblocked written links rest
      rw [hdescend] at h
      obtain ⟨hmade, hplace⟩ := ih hnames.of_cons (hbuilds.straight hf) h
      refine ⟨(hbuilds.mono ?_ fun _ => id).trans (hmade.mono ?_ fun _ => id), fun place e => ?_⟩
      · rintro path rfl
        exact ⟨[name], ⟨rest, rfl⟩, List.cons_ne_nil _ _, rfl⟩
      · rintro path ⟨q, hq, -, rfl⟩
        exact ⟨name :: q, List.cons_prefix_cons.2 ⟨rfl, hq⟩, List.cons_ne_nil _ _, by simp⟩
      · rw [hplace place e, List.append_assoc, List.singleton_append]

/-- Among files with more directories, going down a way without links that is blocked alike makes
directories only where it makes them among the first files, and leaves all of these. -/
theorem descend_makes (hnames : Path.IsNormal names) (hf : f.Straight base names)
    (hg : g.Straight base names)
    (hblocked : ∀ q, q <+: names → q ≠ [] → (f.Blocked (base ++ q) ↔ g.Blocked (base ++ q)))
    (hmore : ∀ path, f.entry? path = some .directory → g.entry? path = some .directory)
    (links : Nat) :
    Builds (fun path => Files.entry? (f.descend links base names).2 path = some .directory)
        (fun _ => False) g (g.descend links base names).2 ∧
      ∀ path, Files.entry? (f.descend links base names).2 path = some .directory →
        Files.entry? (g.descend links base names).2 path = some .directory := by
  induction names generalizing f g base with
  | nil => exact ⟨.refl _ _ _, hmore⟩
  | cons name rest ih =>
    have hname : Path.IsName name := hnames name List.mem_cons_self
    by_cases hlong : isTooLong name = true
    · rw [descend_too_long hname hlong, descend_too_long hname hlong]
      exact ⟨.refl _ _ _, hmore⟩
    have hstep := isStep_of_isName hname (by simpa using hlong)
    obtain ⟨hflink, hf⟩ := straight_cons.1 hf
    obtain ⟨hglink, hg⟩ := straight_cons.1 hg
    have hfirst := hblocked [name] ⟨rest, rfl⟩ (List.cons_ne_nil _ _)
    by_cases hb : f.Blocked (base ++ [name])
    · rw [descend_blocked hstep hb hflink, descend_blocked hstep (hfirst.1 hb) hglink]
      exact ⟨.refl _ _ _, hmore⟩
    · obtain ⟨made, hdf, hff, hfd⟩ := exists_descend_cons hstep hb (fun _ => False) links rest
      obtain ⟨built, hdg, hgg, hgd⟩ := exists_descend_cons hstep (fun hb' => hb (hfirst.2 hb'))
        (fun _ => False) links rest
      have hmore' : ∀ path, made.entry? path = some .directory →
          built.entry? path = some .directory := by
        intro path hpath
        by_cases heq : path = base ++ [name]
        · rw [heq, hgd]
        · rw [hff.entry?_eq heq id] at hpath
          exact hgg.directory (hmore path hpath)
      obtain ⟨hbuilds, hleft⟩ := ih hnames.of_cons (hff.straight hf) (hgg.straight hg)
        (fun q hq hne => by
          rw [hff.blocked_iff False.elim, hgg.blocked_iff False.elim, List.append_assoc]
          exact hblocked (name :: q) (List.cons_prefix_cons.2 ⟨rfl, hq⟩) (List.cons_ne_nil _ _))
        hmore'
      rw [hdf, hdg]
      refine ⟨(hgg.mono ?_ fun _ => id).trans hbuilds, hleft⟩
      rintro path rfl
      exact (builds_descend (fun _ => False) made links (base ++ [name]) rest).directory hfd

/-- Going down a way on which nothing but directories stands reaches its end. -/
theorem exists_descend_free (hnames : ∀ name ∈ names, IsStep name)
    (hfree : ∀ q, q <+: names → q ≠ [] → ¬ f.Blocked (base ++ q)) (links : Nat) :
    ∃ g, f.descend links base names = (.ok (base ++ names), g) := by
  induction names generalizing f base with
  | nil => exact ⟨f, by rw [List.append_nil]; rfl⟩
  | cons name rest ih =>
    obtain ⟨f', hdescend, hbuilds, -⟩ := exists_descend_cons (hnames name List.mem_cons_self)
      (hfree [name] ⟨rest, rfl⟩ (List.cons_ne_nil _ _)) (fun _ => False) links rest
    have hmore : ∀ q, q <+: rest → q ≠ [] → ¬ f'.Blocked (base ++ [name] ++ q) := by
      intro q hq hne
      rw [hbuilds.blocked_iff False.elim, List.append_assoc]
      exact hfree (name :: q) (List.cons_prefix_cons.2 ⟨rfl, hq⟩) (List.cons_ne_nil _ _)
    obtain ⟨g, hg⟩ := ih (fun other hother => hnames other (List.mem_cons_of_mem _ hother)) hmore
    exact ⟨g, by rw [hdescend, hg, List.append_assoc, List.singleton_append]⟩

/-! ## Writing files -/

section Writing

variable {directory : Path} {name t : Text} {content : Bytes}

/-- A file's path leads below the place that its directory's path leads to, unless the name is too
long or a link stands there. -/
theorem locateFor_of_leads (hp : (directory ++ [name]).IsNormal) {n : Nat} (hn : n ≤ linkLimit)
    (hleads : Leads f [] (directory.map Text.stored) n place)
    (hlink : ∀ target, f.entry? (place ++ [Text.stored name]) ≠ some (.link target))
    (call : FileCall) (aim : Aim) :
    f.locateFor call aim (Path.text (directory ++ [name])) =
      if isUsable (Path.text (directory ++ [name])) then
        if isOverlong (Path.text (directory ++ [name])) ∨ isTooLong (Text.stored name) then
          .error (.failed .nameTooLong call (some (Path.text (directory ++ [name]))))
        else .ok (place ++ [Text.stored name])
      else .error (.unusable (Path.text (directory ++ [name]))) := by
  generalize ht : Path.text (directory ++ [name]) = t
  have hname : Path.IsName (Text.stored name) := (hp name (by simp)).stored
  have haim : aim = .make → HasName [Text.stored name] := fun _ => by
    simp [HasName, hname.ne_nil]
  have hfollow : f.follow aim (linkLimit + 1) [] (f.components t) =
      f.follow aim (linkLimit - n + 1) place [Text.stored name] := by
    have hfuel : linkLimit + 1 = n + (linkLimit - n + 1) := by omega
    rw [← ht, follow_text f aim _ hp, List.map_append, hfuel]
    exact hleads.follow_append haim _
  have hne : t ≠ [] := ht ▸ List.cons_ne_nil _ _
  rw [locateFor, locate, if_neg hne, Files.place, hfollow]
  by_cases husable : isUsable t = true
  · rw [if_pos husable, if_pos husable]
    by_cases hover : isOverlong t = true
    · rw [if_pos hover, if_pos (Or.inl hover)]
      rfl
    by_cases hlong : isTooLong (Text.stored name) = true
    · rw [if_neg hover, if_pos (Or.inr hlong), follow, walk_too_long hname hlong fun _ => rfl]
      rfl
    · rw [if_neg hover, if_neg (by simp [hover, hlong]),
        follow_last (isStep_of_isName hname (by simpa using hlong)) hlink]
      rfl
  · rw [if_neg husable, if_neg husable]

/-- Making directories on a way without links makes them on the way only, and reaches its end. -/
theorem of_makeDirectories_straight (hdirectory : directory.IsNormal)
    (hf : f.Straight [] (directory.map Text.stored)) (written : Path → Prop)
    {outcome : Except FileError Path}
    (h : f.makeDirectories (Path.text directory) = (outcome, g)) :
    Builds (fun path => path <+: directory.map Text.stored) written f g ∧
      ∀ place, outcome = .ok place → place = directory.map Text.stored ∧
        ∃ n ≤ linkLimit, Leads g [] (directory.map Text.stored) n place := by
  by_cases hfits : Fits directory
  · rw [makeDirectories_text hdirectory hfits] at h
    cases hd : f.descend linkLimit [] (directory.map Text.stored) with
    | mk reached after =>
      rw [hd] at h
      obtain ⟨rfl, rfl⟩ := Prod.mk.inj h
      obtain ⟨hbuilds, hplace⟩ := of_descend_straight hdirectory.stored hf written hd
      refine ⟨hbuilds.mono ?_ fun _ => id, fun place hok => ?_⟩
      · rintro path ⟨q, hq, -, rfl⟩
        exact hq
      · obtain rfl := mapError_eq_ok_iff.1 hok
        exact ⟨hplace place rfl, leads_of_descend hd⟩
  · obtain ⟨e, he⟩ := exists_makeDirectories_error hfits
    rw [he] at h
    cases h
    exact ⟨.refl _ _ _, fun place hok => by cases hok⟩

theorem makeDirectories_congr (hdirectory : directory.IsNormal)
    (hf : f.Straight [] (directory.map Text.stored))
    (hg : g.Straight [] (directory.map Text.stored))
    (h : ∀ q, q <+: directory.map Text.stored → q ≠ [] → (f.Blocked q ↔ g.Blocked q)) :
    (f.makeDirectories (Path.text directory)).1 = (g.makeDirectories (Path.text directory)).1 := by
  by_cases hfits : Fits directory
  · rw [makeDirectories_text hdirectory hfits, makeDirectories_text hdirectory hfits,
      descend_congr hdirectory.stored hf hg h]
  · obtain ⟨e, he⟩ := exists_makeDirectories_error hfits
    rw [he, he]

theorem makeDirectories_makes (hdirectory : directory.IsNormal)
    (hf : f.Straight [] (directory.map Text.stored))
    (hg : g.Straight [] (directory.map Text.stored))
    (hblocked : ∀ q, q <+: directory.map Text.stored → q ≠ [] → (f.Blocked q ↔ g.Blocked q))
    (hmore : ∀ path, f.entry? path = some .directory → g.entry? path = some .directory) :
    Builds (fun path =>
          Files.entry? (f.makeDirectories (Path.text directory)).2 path = some .directory)
        (fun _ => False) g (g.makeDirectories (Path.text directory)).2 ∧
      ∀ path, Files.entry? (f.makeDirectories (Path.text directory)).2 path = some .directory →
        Files.entry? (g.makeDirectories (Path.text directory)).2 path = some .directory := by
  by_cases hfits : Fits directory
  · rw [makeDirectories_text hdirectory hfits, makeDirectories_text hdirectory hfits]
    exact descend_makes hdirectory.stored hf hg hblocked hmore linkLimit
  · obtain ⟨e, he⟩ := exists_makeDirectories_error hfits
    rw [he, he]
    exact ⟨.refl _ _ _, hmore⟩

theorem eq_append_of_locateFor (hp : (directory ++ [name]).IsNormal)
    (hf : f.Straight [] (directory.map Text.stored ++ [Text.stored name])) {call : FileCall}
    (h : f.locateFor call aim (Path.text (directory ++ [name])) = .ok place) :
    place = directory.map Text.stored ++ [Text.stored name] := by
  obtain ⟨-, left, hfollow⟩ := (locateFor_eq_ok_iff call hp).1 h
  have hnames := hp.stored
  rw [List.map_append] at hfollow hnames
  have hplace : place = [] ++ (directory.map Text.stored ++ [Text.stored name]) :=
    eq_append_of_follow hnames hf hfollow
  exact hplace

theorem not_append_isPrefix_self (names : List Text) (name : Text) :
    ¬ names ++ [name] <+: names := by
  intro h
  have hlength := h.length_le
  rw [List.length_append, List.length_singleton] at hlength
  omega

theorem fst_of_write (h : f.locateFor .openFile .make t = .ok place) (content : Bytes) :
    (f.write t content).map (fun _ => ()) =
      if f.entry? place = some .directory then
        .error (.failed .isDirectory .openFile (some t))
      else .ok () := by
  rw [write_of_locateFor h]
  by_cases hd : f.entry? place = some .directory
  · rw [hd]
    rfl
  · rw [if_neg hd]
    split
    · exact absurd ‹_› hd
    · rfl
    · rfl

/-- What becomes of writing a file whose directory is there, on a way without links, depends only on
whether a directory stands at the end. -/
theorem map_write_congr (hp : (directory ++ [name]).IsNormal) {m n : Nat} (hm : m ≤ linkLimit)
    (hn : n ≤ linkLimit) (hf : Leads f [] (directory.map Text.stored) m (directory.map Text.stored))
    (hg : Leads g [] (directory.map Text.stored) n (directory.map Text.stored))
    (hflink : ∀ target,
      f.entry? (directory.map Text.stored ++ [Text.stored name]) ≠ some (.link target))
    (hglink : ∀ target,
      g.entry? (directory.map Text.stored ++ [Text.stored name]) ≠ some (.link target))
    (hend : f.entry? (directory.map Text.stored ++ [Text.stored name]) = some .directory ↔
      g.entry? (directory.map Text.stored ++ [Text.stored name]) = some .directory)
    (content content' : Bytes) :
    (f.write (Path.text (directory ++ [name])) content).map (fun _ => ()) =
      (g.write (Path.text (directory ++ [name])) content').map fun _ => () := by
  -- Both files are opened at the same place.
  have hopenf := locateFor_of_leads hp hm hf hflink .openFile .make
  have hopeng := locateFor_of_leads hp hn hg hglink .openFile .make
  have hsame := hopenf.trans hopeng.symm
  cases hl : f.locateFor .openFile .make (Path.text (directory ++ [name])) with
  | error e =>
    rw [hl] at hsame
    simp only [write, hl, ← hsame]
  | ok place =>
    obtain rfl : place = directory.map Text.stored ++ [Text.stored name] := by
      rw [hl] at hopenf
      split at hopenf
      · split at hopenf
        · cases hopenf
        · exact Except.ok.inj hopenf
      · cases hopenf
    rw [hl] at hsame
    rw [fst_of_write hl, fst_of_write hsame.symm]
    simp only [hend]

theorem fst_writeUnder (h : f.makeDirectories (Path.parentText t) = (.ok place, g))
    (content : Bytes) :
    (f.writeUnder t content).1 = (g.write t content).map fun _ => () := by
  simp only [writeUnder, h]
  cases g.write t content <;> rfl

/-- What becomes of a write on a way without links depends only on where the way to the directory is
blocked and on whether a directory stands at the end. -/
theorem writeUnder_congr (hp : (directory ++ [name]).IsNormal)
    (hf : f.Straight [] (directory.map Text.stored ++ [Text.stored name]))
    (hg : g.Straight [] (directory.map Text.stored ++ [Text.stored name]))
    (hblocked : ∀ q, q <+: directory.map Text.stored → q ≠ [] → (f.Blocked q ↔ g.Blocked q))
    (hend : f.entry? (directory.map Text.stored ++ [Text.stored name]) = some .directory ↔
      g.entry? (directory.map Text.stored ++ [Text.stored name]) = some .directory)
    (content content' : Bytes) :
    (f.writeUnder (Path.text (directory ++ [name])) content).1 =
      (g.writeUnder (Path.text (directory ++ [name])) content').1 := by
  have hdirectory : directory.IsNormal := hp.of_append
  have hparent : Path.parentText (Path.text (directory ++ [name])) = Path.text directory :=
    Path.parentText_text (hp name (by simp))
  have hout := makeDirectories_congr hdirectory hf.of_append hg.of_append hblocked
  cases hmf : f.makeDirectories (Path.text directory) with
  | mk outcome f' =>
    cases hmg : g.makeDirectories (Path.text directory) with
    | mk outcome' g' =>
      rw [hmf, hmg] at hout
      obtain rfl : outcome = outcome' := hout
      cases outcome with
      | error e => simp only [writeUnder, hparent, hmf, hmg]
      | ok reached =>
        obtain ⟨hff, hreached⟩ :=
          of_makeDirectories_straight hdirectory hf.of_append (fun _ => False) hmf
        obtain ⟨rfl, n, hn, hleadsf⟩ := hreached reached rfl
        obtain ⟨hgg, hreached⟩ :=
          of_makeDirectories_straight hdirectory hg.of_append (fun _ => False) hmg
        obtain ⟨-, m, hm, hleadsg⟩ := hreached _ rfl
        rw [fst_writeUnder (hparent ▸ hmf), fst_writeUnder (hparent ▸ hmg)]
        -- Nothing has changed at the place of the file, which is below the directory.
        refine map_write_congr hp hn hm hleadsf hleadsg
          (hff.straight hf _ (List.prefix_refl _) (by simp))
          (hgg.straight hg _ (List.prefix_refl _) (by simp)) ?_ content content'
        rw [hff.entry?_eq (not_append_isPrefix_self _ _) id,
          hgg.entry?_eq (not_append_isPrefix_self _ _) id]
        exact hend

/-- Writing on a way without links sets the file at its end, unless a special entry stands there. -/
theorem of_write_straight (hp : (directory ++ [name]).IsNormal)
    (hf : f.Straight [] (directory.map Text.stored ++ [Text.stored name]))
    (h : f.write (Path.text (directory ++ [name])) content = .ok g) :
    let target := directory.map Text.stored ++ [Text.stored name]
    Builds (fun _ => False) (· = target) f g ∧
      (g.entry? target = some .special ∨ g.entry? target = some (.file content)) := by
  intro target
  cases hl : f.locateFor .openFile .make (Path.text (directory ++ [name])) with
  | error e => simp [write, hl] at h
  | ok place =>
    obtain rfl : place = target := eq_append_of_locateFor hp hf hl
    obtain ⟨hset, -, hentry⟩ := write_eq_ok hl (hf _ (List.prefix_refl _) (by simp)) h
    exact ⟨hset, hentry⟩

/-- A write on a way without links makes directories on the way and sets the file at its end, unless
a special entry stands there. -/
theorem of_writeUnder_straight (hp : (directory ++ [name]).IsNormal)
    (hf : f.Straight [] (directory.map Text.stored ++ [Text.stored name]))
    {outcome : Except FileError Unit}
    (h : f.writeUnder (Path.text (directory ++ [name])) content = (outcome, g)) :
    let target := directory.map Text.stored ++ [Text.stored name]
    Builds (· <+: directory.map Text.stored) (fun path => outcome = .ok () ∧ path = target) f g ∧
      (outcome = .ok () →
        g.entry? target = some .special ∨ g.entry? target = some (.file content)) := by
  intro target
  have hdirectory : directory.IsNormal := hp.of_append
  rw [writeUnder, Path.parentText_text (hp name (by simp))] at h
  cases hm : f.makeDirectories (Path.text directory) with
  | mk reached f' =>
    obtain ⟨hmade, hreached⟩ := of_makeDirectories_straight hdirectory hf.of_append
      (fun path => outcome = .ok () ∧ path = target) hm
    rw [hm] at h
    cases reached with
    | error e =>
      cases h
      exact ⟨hmade, fun e => by cases e⟩
    | ok place =>
      obtain ⟨rfl, n, hn, hleads⟩ := hreached place rfl
      cases hw : f'.write (Path.text (directory ++ [name])) content with
      | error e =>
        simp only [hw] at h
        cases h
        exact ⟨hmade, fun e => by cases e⟩
      | ok written =>
        simp only [hw] at h
        cases h
        obtain ⟨hset, hentry⟩ := of_write_straight hp (hmade.straight hf) hw
        exact ⟨hmade.trans (hset.mono (fun _ => False.elim) fun _ e => ⟨rfl, e⟩),
          fun _ => hentry⟩

end Writing

end Files

end BulkTransfer
