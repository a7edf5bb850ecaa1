import BulkTransfer.Files.Access
import BulkTransfer.Proofs.Path.Stored

/-!
# Where components lead

`Leads f base names n place` says that components lead from a directory over `n` links to a place,
with directories all the way.  It is what `follow` and `descend` have in common: components that
lead somewhere can be taken off the front of what either of them is given (`Leads.follow_append`,
`Leads.descend_append`), whatever `follow` gets through has led over directories up to its last
component (`exists_leads_of_follow`), and what `descend` gets through leads to its place in the
files that it leaves (`Proofs.Files.Building`).
-/

namespace BulkTransfer

namespace Files

/-- A component that names an entry: it goes down, and it is not too long. -/
structure IsStep (name : Text) : Prop where
  ne_nil : name ≠ []
  ne_dot : name ≠ Path.dot
  ne_dots : name ≠ Path.dots
  short : isTooLong name = false

/-- Components lead from a directory over so many links to a place. -/
inductive Leads (f : Files) : Path → List Text → Nat → Path → Prop
  | here (base : Path) : Leads f base [] 0 base
  | stay {base place : Path} {name : Text} {rest : List Text} {n : Nat}
    (hname : name = [] ∨ name = Path.dot) (h : Leads f base rest n place) :
    Leads f base (name :: rest) n place
  | up {base place : Path} {rest : List Text} {n : Nat} (h : Leads f base.dropLast rest n place) :
    Leads f base (Path.dots :: rest) n place
  | down {base place : Path} {name : Text} {rest : List Text} {n : Nat} (hname : IsStep name)
    (hentry : f.entry? (base ++ [name]) = some .directory)
    (h : Leads f (base ++ [name]) rest n place) : Leads f base (name :: rest) n place
  | link {base middle place : Path} {name target : Text} {rest : List Text} {m n : Nat}
    (hname : IsStep name) (hentry : f.entry? (base ++ [name]) = some (.link target))
    (htarget : Leads f (startOf base target) (pieces target) m middle)
    (h : Leads f middle rest n place) : Leads f base (name :: rest) (m + n + 1) place

/-- Directories stand in directories. -/
def Closed (f : Files) : Prop :=
  ∀ path, f.entry? path = some .directory → f.entry? path.dropLast = some .directory

variable {f g : Files} {aim : Aim} {base place : Path} {name : Text} {names rest : List Text}

/-! ## Following one component -/

theorem isStep_of_not (hstay : ¬ (name = [] ∨ name = Path.dot)) (hup : ¬ name = Path.dots)
    (hlong : ¬ isTooLong name = true) : IsStep name :=
  ⟨fun e => hstay (.inl e), fun e => hstay (.inr e), hup, by simpa using hlong⟩

theorem follow_congr {base' : Path} {rest' : List Text}
    (h : f.walk aim base rest = f.walk aim base' rest') (fuel : Nat) :
    f.follow aim fuel base rest = f.follow aim fuel base' rest' := by
  cases fuel with
  | zero => rfl
  | succ fuel => rw [follow, follow, h]

theorem follow_stay (h : name = [] ∨ name = Path.dot) (fuel : Nat) :
    f.follow aim fuel base (name :: rest) = f.follow aim fuel base rest :=
  follow_congr (by rw [walk, if_pos h]) fuel

theorem follow_up (fuel : Nat) :
    f.follow aim fuel base (Path.dots :: rest) = f.follow aim fuel base.dropLast rest := by
  have hgo : ¬ (Path.dots = [] ∨ Path.dots = Path.dot) := by decide +kernel
  exact follow_congr (by rw [walk, if_neg hgo, if_pos rfl]) fuel

theorem walk_step (hname : IsStep name) (haim : aim = .make → endsInSlash rest = false) :
    f.walk aim base (name :: rest) =
      match f.entry? (base ++ [name]) with
      | some .directory => f.walk aim (base ++ [name]) rest
      | some (.link target) => .detour (startOf base target) (pieces target ++ rest)
      | some _ => if rest.isEmpty then .arrived (base ++ [name]) else .failed .notDirectory
      | none => if rest.isEmpty then .arrived (base ++ [name]) else .failed .noEntry := by
  have hslash : ¬ (aim = .make ∧ endsInSlash rest = true) := by
    rintro ⟨hmake, hends⟩
    rw [haim hmake] at hends
    cases hends
  rw [walk, if_neg (by simp [hname.ne_nil, hname.ne_dot]), if_neg hname.ne_dots, if_neg hslash]
  exact if_neg (by simp [hname.short])

theorem follow_down (hname : IsStep name) (haim : aim = .make → endsInSlash rest = false)
    (hentry : f.entry? (base ++ [name]) = some .directory) (fuel : Nat) :
    f.follow aim fuel base (name :: rest) = f.follow aim fuel (base ++ [name]) rest :=
  follow_congr (by rw [walk_step hname haim, hentry]) fuel

theorem follow_link {target : Text} (hname : IsStep name)
    (haim : aim = .make → endsInSlash rest = false)
    (hentry : f.entry? (base ++ [name]) = some (.link target)) (fuel : Nat) :
    f.follow aim (fuel + 1) base (name :: rest) =
      f.follow aim fuel (startOf base target) (pieces target ++ rest) := by
  rw [follow, walk_step hname haim, hentry]

theorem follow_nil (fuel : Nat) : f.follow aim (fuel + 1) base [] = .ok (base, fuel) := rfl

/-- Where neither a directory nor a link stands, the way ends: at its last component well, and
before it badly. -/
theorem walk_end (hname : IsStep name) (haim : aim = .make → endsInSlash rest = false)
    (hdirectory : f.entry? (base ++ [name]) ≠ some .directory)
    (hlink : ∀ target, f.entry? (base ++ [name]) ≠ some (.link target)) :
    rest = [] ∧ f.walk aim base (name :: rest) = .arrived (base ++ [name]) ∨
      ∃ fault, f.walk aim base (name :: rest) = .failed fault := by
  rw [walk_step hname haim]
  cases rest with
  | nil =>
    refine .inl ⟨rfl, ?_⟩
    split
    · exact absurd ‹_› hdirectory
    · exact absurd ‹_› (hlink _)
    · rfl
    · rfl
  | cons next more =>
    refine .inr ?_
    split
    · exact absurd ‹_› hdirectory
    · exact absurd ‹_› (hlink _)
    · exact ⟨.notDirectory, rfl⟩
    · exact ⟨.noEntry, rfl⟩

/-- The last component leads to the place that it names, unless a link stands there. -/
theorem walk_last (hname : IsStep name)
    (hlink : ∀ target, f.entry? (base ++ [name]) ≠ some (.link target)) :
    f.walk aim base [name] = .arrived (base ++ [name]) := by
  rw [walk_step hname fun _ => rfl]
  split
  · rfl
  · exact absurd ‹_› (hlink _)
  · rfl
  · rfl

theorem follow_last (hname : IsStep name)
    (hlink : ∀ target, f.entry? (base ++ [name]) ≠ some (.link target)) (fuel : Nat) :
    f.follow aim (fuel + 1) base [name] = .ok (base ++ [name], fuel) := by
  rw [follow, walk_last hname hlink]

/-! ## Components that lead somewhere -/

theorem startOf_isDirectory (hbase : f.entry? base = some .directory) (target : Text) :
    f.entry? (startOf base target) = some .directory := by
  rw [startOf]
  split
  · rfl
  · exact hbase

/-- A name among components keeps them from ending in a slash. -/
def HasName (rest : List Text) : Prop := rest.all List.isEmpty = false

theorem endsInSlash_append (names : List Text) (h : HasName rest) :
    endsInSlash (names ++ rest) = false := by
  rw [HasName] at h
  simp [endsInSlash, h]

namespace Leads

variable {n : Nat}

/-- Components that lead to a place are followed to it. -/
theorem follow_append (h : Leads f base names n place) (haim : aim = .make → HasName rest)
    (fuel : Nat) : f.follow aim (n + fuel) base (names ++ rest) = f.follow aim fuel place rest := by
  induction h generalizing rest fuel with
  | here base => rw [Nat.zero_add, List.nil_append]
  | stay hname _ ih => rw [List.cons_append, follow_stay hname, ih haim]
  | up _ ih => rw [List.cons_append, follow_up, ih haim]
  | down hname hentry _ ih =>
    rw [List.cons_append, follow_down hname (fun h => endsInSlash_append _ (haim h)) hentry,
      ih haim]
  | @link base middle place name target more m n hname hentry _ _ ihtarget ih =>
    have hmore : aim = .make → HasName (more ++ rest) := by
      intro h
      have := haim h
      rw [HasName] at this ⊢
      simp [this]
    have hfuel : m + n + 1 + fuel = m + (n + fuel) + 1 := by omega
    rw [List.cons_append, hfuel, follow_link hname
      (fun h => endsInSlash_append _ (haim h)) hentry, ihtarget hmore, ih haim]

theorem follow (h : Leads f base names n place) (fuel : Nat) :
    f.follow .use (n + fuel + 1) base names = .ok (place, fuel) := by
  have haim : Aim.use = .make → HasName [] := fun h => by cases h
  have happend := h.follow_append haim (fuel + 1)
  rwa [List.append_nil, follow_nil] at happend

/-- Components lead on in any files that keep the directories and the links. -/
theorem mono (h : Leads f base names n place)
    (hdirectory : ∀ {path}, f.entry? path = some .directory → g.entry? path = some .directory)
    (hlink : ∀ {path target}, f.entry? path = some (.link target) →
      g.entry? path = some (.link target)) : Leads g base names n place := by
  induction h with
  | here base => exact .here base
  | stay hname _ ih => exact .stay hname ih
  | up _ ih => exact .up ih
  | down hname hentry _ ih => exact .down hname (hdirectory hentry) ih
  | link hname hentry _ _ ihtarget ih => exact .link hname (hlink hentry) ihtarget ih

theorem exists_of_append {more : List Text} (h : Leads f base (names ++ more) n place) :
    ∃ m k middle, Leads f base names m middle ∧ Leads f middle more k place ∧ n = m + k := by
  induction names generalizing base n with
  | nil => exact ⟨0, n, base, .here base, h, (Nat.zero_add n).symm⟩
  | cons name rest ih =>
    rw [List.cons_append] at h
    cases h with
    | stay hname h =>
      obtain ⟨m, k, middle, hfirst, hlast, hsum⟩ := ih h
      exact ⟨m, k, middle, .stay hname hfirst, hlast, hsum⟩
    | up h =>
      obtain ⟨m, k, middle, hfirst, hlast, hsum⟩ := ih h
      exact ⟨m, k, middle, .up hfirst, hlast, hsum⟩
    | down hname hentry h =>
      obtain ⟨m, k, middle, hfirst, hlast, hsum⟩ := ih h
      exact ⟨m, k, middle, .down hname hentry hfirst, hlast, hsum⟩
    | @link _ _ _ _ _ _ j _ hname hentry htarget h =>
      obtain ⟨m, k, middle, hfirst, hlast, rfl⟩ := ih h
      exact ⟨j + m + 1, k, middle, .link hname hentry htarget hfirst, hlast, by omega⟩

/-- Where directories stand in directories, components lead from one to another. -/
theorem isDirectory (h : Leads f base names n place) (hclosed : f.Closed)
    (hbase : f.entry? base = some .directory) : f.entry? place = some .directory := by
  induction h with
  | here base => exact hbase
  | stay _ _ ih => exact ih hbase
  | up _ ih => exact ih (hclosed _ hbase)
  | down _ hentry _ ih => exact ih hentry
  | link _ _ _ _ ihtarget ih => exact ih (ihtarget (startOf_isDirectory hbase _))

/-- Directories that are there are gone down and stay as they are. -/
theorem descend_append (h : Leads f base names n place) (hclosed : f.Closed)
    (hbase : f.entry? base = some .directory) (links : Nat) (rest : List Text) :
    f.descend (n + links) base (names ++ rest) = f.descend links place rest := by
  induction h with
  | here base => rw [Nat.zero_add, List.nil_append]
  | stay hname _ ih => rw [List.cons_append, descend, if_pos hname, ih hbase]
  | up _ ih =>
    have hgo : ¬ (Path.dots = [] ∨ Path.dots = Path.dot) := by decide +kernel
    rw [List.cons_append, descend, if_neg hgo, if_pos rfl, ih (hclosed _ hbase)]
  | down hname hentry _ ih =>
    rw [List.cons_append, descend, if_neg (by simp [hname.ne_nil, hname.ne_dot]),
      if_neg hname.ne_dots, if_neg (by simp [hname.short]), hentry]
    exact ih hentry
  | @link base middle place name target more m n hname hentry htarget _ _ ih =>
    have hmiddle := htarget.isDirectory hclosed (startOf_isDirectory hbase target)
    have hfuel : m + n + 1 + links = m + (n + links) + 1 := by omega
    rw [List.cons_append, descend, if_neg (by simp [hname.ne_nil, hname.ne_dot]),
      if_neg hname.ne_dots, if_neg (by simp [hname.short]), hentry, hfuel]
    simp only [htarget.follow, hmiddle]
    exact ih hmiddle

end Leads

/-! ## What was followed has led over directories -/

/-- Whatever is followed to its end has led over directories to what comes last; and over all of it
if it ends at a directory. -/
theorem exists_leads_of_follow {fuel left : Nat}
    (h : f.follow aim fuel base (names ++ rest) = .ok (place, left))
    (hrest : rest ≠ [] ∨ f.entry? place = some .directory) :
    ∃ n fuel' middle, Leads f base names n middle ∧ fuel = n + fuel' ∧
      f.follow aim fuel' middle rest = .ok (place, left) := by
  -- By the fuel, which a link uses up, and then by the components that come first.
  induction fuel generalizing base names with
  | zero => cases h
  | succ fuel ihfuel =>
    induction names generalizing base with
    | nil => exact ⟨0, fuel + 1, base, .here base, (Nat.zero_add _).symm, h⟩
    | cons name names ih =>
      rw [List.cons_append] at h
      by_cases hstay : name = [] ∨ name = Path.dot
      · rw [follow_stay hstay] at h
        obtain ⟨n, fuel', middle, hleads, hfuel, hlast⟩ := ih h
        exact ⟨n, fuel', middle, .stay hstay hleads, hfuel, hlast⟩
      by_cases hup : name = Path.dots
      · subst hup
        rw [follow_up] at h
        obtain ⟨n, fuel', middle, hleads, hfuel, hlast⟩ := ih h
        exact ⟨n, fuel', middle, .up hleads, hfuel, hlast⟩
      by_cases hslash : aim = .make ∧ endsInSlash (names ++ rest) = true
      · rw [follow, walk, if_neg hstay, if_neg hup, if_pos hslash] at h
        cases h
      by_cases hlong : isTooLong name = true
      · rw [follow, walk, if_neg hstay, if_neg hup, if_neg hslash, if_pos hlong] at h
        cases h
      have hname := isStep_of_not hstay hup hlong
      have haim : aim = .make → endsInSlash (names ++ rest) = false :=
        fun hmake => by simpa using fun hends => hslash ⟨hmake, hends⟩
      by_cases hlink : ∃ target, f.entry? (base ++ [name]) = some (.link target)
      · obtain ⟨target, hentry⟩ := hlink
        rw [follow_link hname haim hentry, ← List.append_assoc] at h
        obtain ⟨n, fuel', middle, hleads, rfl, hlast⟩ := ihfuel h
        obtain ⟨m, k, turn, htarget, hmore, rfl⟩ := hleads.exists_of_append
        exact ⟨m + k + 1, fuel', middle, .link hname hentry htarget hmore, by omega, hlast⟩
      by_cases hdirectory : f.entry? (base ++ [name]) = some .directory
      · rw [follow_down hname haim hdirectory] at h
        obtain ⟨n, fuel', middle, hleads, hfuel, hlast⟩ := ih h
        exact ⟨n, fuel', middle, .down hname hdirectory hleads, hfuel, hlast⟩
      -- Elsewhere the way can only end at the place itself, and this would be a directory.
      rw [follow] at h
      rcases walk_end hname haim hdirectory fun target he => hlink ⟨target, he⟩ with
        ⟨hnil, hwalk⟩ | ⟨fault, hwalk⟩
      · rw [hwalk] at h
        obtain ⟨-, rfl⟩ := List.append_eq_nil_iff.1 hnil
        obtain rfl : base ++ [name] = place := congrArg Prod.fst (Except.ok.inj h)
        exact absurd (hrest.resolve_left fun hne => hne rfl) hdirectory
      · rw [hwalk] at h
        cases h

/-! ## Where a way ends -/

/-- Where directories stand in directories, a way goes on from directories and ends at no link. -/
theorem of_walk (hclosed : f.Closed) (hbase : f.entry? base = some .directory) :
    (∀ place, f.walk aim base rest = .arrived place →
      ∀ target, f.entry? place ≠ some (.link target)) ∧
    ∀ start more, f.walk aim base rest = .detour start more →
      f.entry? start = some .directory := by
  fun_induction walk f aim base rest with
  | case1 base =>
    refine ⟨fun place e target hlink => ?_, fun start more e => by cases e⟩
    cases e
    rw [hbase] at hlink
    cases hlink
  | case2 base name rest hstay ih => exact ih hbase
  | case3 base rest hstay ih => exact ih (hclosed _ hbase)
  | case6 base name rest hstay hup hslash hlong hentry ih => exact ih hentry
  | case7 base name rest hstay hup hslash hlong target hentry =>
    refine ⟨fun place e => by (cases e), fun start more e => ?_⟩
    cases e
    exact startOf_isDirectory hbase target
  | case8 base name rest hstay hup hslash hlong entry hdirectory hlink hentry hlast =>
    refine ⟨fun place e target he => ?_, fun start more e => by cases e⟩
    cases e
    rw [hentry] at he
    exact hlink target (Option.some.inj he)
  | case10 base name rest hstay hup hslash hlong hentry hlast =>
    refine ⟨fun place e target he => ?_, fun start more e => by cases e⟩
    cases e
    rw [hentry] at he
    cases he
  | _ => exact ⟨fun place e => by (cases e), fun start more e => by cases e⟩

theorem not_link_of_follow (hclosed : f.Closed) (hbase : f.entry? base = some .directory)
    {fuel left : Nat} (h : f.follow aim fuel base rest = .ok (place, left)) (target : Text) :
    f.entry? place ≠ some (.link target) := by
  induction fuel generalizing base rest with
  | zero => cases h
  | succ fuel ih =>
    rw [follow] at h
    cases hway : f.walk aim base rest with
    | arrived path =>
      rw [hway] at h
      obtain rfl : path = place := congrArg Prod.fst (Except.ok.inj h)
      exact (of_walk hclosed hbase).1 _ hway target
    | failed fault =>
      rw [hway] at h
      cases h
    | detour start more =>
      rw [hway] at h
      exact ih ((of_walk hclosed hbase).2 _ _ hway) h

end Files

end BulkTransfer
