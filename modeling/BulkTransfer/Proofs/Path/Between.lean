import BulkTransfer.Proofs.Path.Containment
import BulkTransfer.Proofs.Path.Scan

/-!
# The text from one path to another, unit by unit

`Scan.between` compares two normal forms unit by unit, sees where they part and after which slash,
goes up from there and takes the rest of the second text.  For the texts of paths in normal form
this is the text that their components give (`Scan.between_text`), whether one lies above the other
(`Scan.between_up`, `Scan.between_down`) or they part within a component (`Scan.between_apart`).
-/

namespace BulkTransfer

namespace Path

open Text

namespace Scan

variable {p q : Path} {name : Text}

/-! ## The text from one normal form to another -/

/-- Where two texts part: how many units they share, how many of these there are up to their last
slash, and what is left of either text. -/
structure Parting where
  shared : Nat
  past : Nat
  source : Text
  target : Text

/-- Goes along two texts while they have the same units. -/
def part (shared past : Nat) : Text → Text → Parting
  | u :: s, v :: t =>
    if u = v then part (shared + 1) (if u = slash then shared + 1 else past) s t
    else ⟨shared, past, u :: s, v :: t⟩
  | s, t => ⟨shared, past, s, t⟩

def oneUp (written : Text) : Text := if written = [] then dots else written ++ slash :: dots

/-- Adds two dots for each component of a text. -/
def climb (written : Text) : Text → Text
  | [] => oneUp written
  | u :: rest => climb (if u = slash then oneUp written else written) rest

/-- The text that goes up to where so many units are past, and down from there. -/
def detour (source target : Text) (past : Nat) : Text :=
  climb [] (source.drop (past + 1)) ++ target.drop past

/-- The text that leads from one normal form to another, by where they part. -/
def Parting.route (source target : Text) (p : Parting) : Text :=
  match p.source, p.target with
  | [], v :: rest =>
    if v = slash then rest
    else if p.shared = 0 then v :: rest
    else detour source target p.past
  | u :: _, [] =>
    if u = slash then detour source target (p.shared + 1)
    else if p.shared = 0 then detour source target 1
    else detour source target p.past
  | _, _ => detour source target p.past

/-- The text that leads from one normal form to another; each begins with a slash. -/
def between (source target : Text) : Text :=
  (part 0 0 (source.drop 1) (target.drop 1)).route source target

/-- The text that leads from where one text stands for to where another one does. -/
def relative (cwd source target : Text) : Text :=
  if source = target then []
  else if resolve cwd source = resolve cwd target then []
  else between (resolve cwd source) (resolve cwd target)

/-! ### Going up -/

theorem climb_append {a : Text} (h : slash ∉ a) (written t : Text) :
    climb written (a ++ t) = climb written t := by
  induction a with
  | nil => rfl
  | cons u rest ih =>
    rw [List.mem_cons, not_or] at h
    rw [List.cons_append, climb, if_neg (Ne.symm h.1), ih h.2]

theorem oneUp_joinWith (n : Nat) :
    oneUp (joinWith [slash] (List.replicate n dots)) =
      joinWith [slash] (List.replicate (n + 1) dots) := by
  unfold oneUp
  cases n with
  | zero => rfl
  | succ n =>
    have hne : joinWith [slash] (List.replicate (n + 1) dots) ≠ [] := by
      obtain ⟨before, hbefore⟩ := exists_joinWith_concat (List.replicate n dots) dots
      rw [List.replicate_succ', hbefore]
      exact List.append_ne_nil_of_right_ne_nil _ (by decide)
    rw [if_neg hne, List.replicate_succ' (n := n + 1), joinWith_concat (by simp)]

/-- A text of components is climbed by two dots for each of them. -/
theorem climb_joinWith (h : IsNormal (name :: p)) (n : Nat) :
    climb (joinWith [slash] (List.replicate n dots)) (joinWith [slash] (name :: p)) =
      joinWith [slash] (List.replicate (n + (p.length + 1)) dots) := by
  induction p generalizing name n with
  | nil =>
    have hname := (h name List.mem_cons_self).no_slash
    have hclimb := climb_append hname (joinWith [slash] (List.replicate n dots)) []
    rw [List.append_nil] at hclimb
    exact hclimb.trans (oneUp_joinWith n)
  | cons next more ih =>
    have hname := (h name List.mem_cons_self).no_slash
    rw [joinWith_cons_cons, climb_append hname, climb, if_pos rfl, oneUp_joinWith, ih h.of_cons]
    have hcount : n + 1 + (more.length + 1) = n + ((next :: more).length + 1) := by
      rw [List.length_cons]
      omega
    rw [hcount]

/-! ### Where texts part -/

theorem part_prefix (shared past : Nat) (s t : Text) :
    ∃ last, part shared past s (s ++ t) = ⟨shared + s.length, last, [], t⟩ := by
  induction s generalizing shared past with
  | nil => exact ⟨past, by cases t <;> rfl⟩
  | cons u rest ih =>
    rw [List.cons_append, part, if_pos rfl]
    obtain ⟨last, hlast⟩ := ih (shared + 1) (if u = slash then shared + 1 else past)
    refine ⟨last, hlast.trans ?_⟩
    rw [List.length_cons]
    congr 1
    omega

theorem part_swap (shared past : Nat) (s t : Text) :
    part shared past t s =
      let parting := part shared past s t
      ⟨parting.shared, parting.past, parting.target, parting.source⟩ := by
  induction s generalizing shared past t with
  | nil => cases t <;> rfl
  | cons u rest ih =>
    cases t with
    | nil => rfl
    | cons v more =>
      by_cases huv : u = v
      · subst huv
        simp only [part, if_true]
        exact ih _ _ _
      · have hvu : v ≠ u := fun e => huv e.symm
        simp only [part, if_neg huv, if_neg hvu]

theorem part_append {a : Text} (h : slash ∉ a) (shared past : Nat) (s t : Text) :
    part shared past (a ++ s) (a ++ t) = part (shared + a.length) past s t := by
  induction a generalizing shared with
  | nil => rfl
  | cons u rest ih =>
    rw [List.mem_cons, not_or] at h
    rw [List.cons_append, List.cons_append, part, if_pos rfl, if_neg (Ne.symm h.1), ih h.2,
      List.length_cons]
    congr 1
    omega

/-- The components of a path with a slash after each. -/
def lead (p : Path) : Text := p.flatMap (· ++ [slash])

theorem joinWith_append_lead (hq : q ≠ []) :
    joinWith [slash] (p ++ q) = lead p ++ joinWith [slash] q := by
  induction p with
  | nil => rfl
  | cons name rest ih =>
    have hne : rest ++ q ≠ [] := by simp [hq]
    obtain ⟨next, more, hcons⟩ := List.exists_cons_of_ne_nil hne
    rw [List.cons_append, hcons, joinWith_cons_cons, ← hcons, ih]
    simp [lead]

theorem part_lead (h : IsNormal p) (n : Nat) (s t : Text) :
    part n n (lead p ++ s) (lead p ++ t) =
      part (n + (lead p).length) (n + (lead p).length) s t := by
  induction p generalizing n with
  | nil => rfl
  | cons name rest ih =>
    have hname := (h name List.mem_cons_self).no_slash
    have hlead : ∀ r, lead (name :: rest) ++ r = name ++ (slash :: (lead rest ++ r)) := by
      intro r
      simp [lead]
    have hlength : (lead (name :: rest)).length = name.length + 1 + (lead rest).length := by
      simp [lead]
      omega
    rw [hlead, hlead, part_append hname, part, if_pos rfl, if_pos rfl, ih h.of_cons, hlength]
    congr 1 <;> omega

/-- A slash before the leading components is one behind them. -/
theorem exists_slash_lead (p : Path) :
    ∃ before, slash :: lead p = before ++ [slash] ∧ before.length = (lead p).length := by
  rcases List.eq_nil_or_concat p with rfl | ⟨q, name, rfl⟩
  · exact ⟨[], rfl, rfl⟩
  · refine ⟨slash :: (lead q ++ name), ?_, ?_⟩
    · simp [lead]
    · simp [lead]
      omega

/-- Texts part within a component: past the same slash as before, after at least so many units, and
where one is at its end, the other goes on with no slash. -/
structure Parting.Within (parting : Parting) (shared past : Nat) : Prop where
  past : parting.past = past
  shared : shared ≤ parting.shared
  source : parting.source = [] → ∃ u rest, parting.target = u :: rest ∧ u ≠ slash
  target : parting.target = [] → ∃ u rest, parting.source = u :: rest ∧ u ≠ slash

theorem within_of_ne {u v : UInt16} (huv : u ≠ v) (shared past : Nat) (s t : Text) :
    (part shared past (u :: s) (v :: t)).Within shared past := by
  rw [part, if_neg huv]
  exact ⟨rfl, Nat.le_refl _, fun h => (nomatch h), fun h => (nomatch h)⟩

section

variable {a b s t : Text} (hs : s = [] ∨ ∃ r, s = slash :: r) (ht : t = [] ∨ ∃ r, t = slash :: r)

include hs ht

/-- Texts whose first components differ part within these. -/
theorem part_within (ha : slash ∉ a) (hb : slash ∉ b) (hne : a ≠ b) (shared past : Nat) :
    (part shared past (a ++ s) (b ++ t)).Within shared past := by
  induction a generalizing b shared with
  | nil =>
    obtain ⟨v, rest, rfl⟩ := List.exists_cons_of_ne_nil (Ne.symm hne)
    rw [List.mem_cons, not_or] at hb
    rcases hs with rfl | ⟨r, rfl⟩
    · exact ⟨rfl, Nat.le_refl _, fun _ => ⟨v, rest ++ t, rfl, Ne.symm hb.1⟩, fun h => (nomatch h)⟩
    · exact within_of_ne hb.1 shared past r (rest ++ t)
  | cons u more ih =>
    rw [List.mem_cons, not_or] at ha
    cases b with
    | nil =>
      rcases ht with rfl | ⟨r, rfl⟩
      · exact ⟨rfl, Nat.le_refl _, fun h => (nomatch h), fun _ => ⟨u, more ++ s, rfl, Ne.symm ha.1⟩⟩
      · exact within_of_ne (Ne.symm ha.1) shared past (more ++ s) r
    | cons v rest =>
      rw [List.mem_cons, not_or] at hb
      by_cases huv : u = v
      · subst huv
        have hlater := ih ha.2 hb.2 (fun e => hne (by rw [e])) (shared + 1)
        rw [List.cons_append, List.cons_append, part, if_pos rfl, if_neg (Ne.symm ha.1)]
        exact { hlater with shared := Nat.le_of_succ_le hlater.shared }
      · exact within_of_ne huv shared past (more ++ s) (rest ++ t)

end

theorem joinWith_cons (name : Text) (p : Path) :
    ∃ rest, joinWith [slash] (name :: p) = name ++ rest ∧
      (rest = [] ∨ ∃ more, rest = slash :: more) := by
  cases p with
  | nil => exact ⟨[], (List.append_nil name).symm, .inl rfl⟩
  | cons next more => exact ⟨_, joinWith_cons_cons name next more, .inr ⟨_, rfl⟩⟩

/-! ### The text from one path to another -/

variable {up down common : Path}

theorem climb_eq (h : IsNormal (name :: p)) :
    climb [] (joinWith [slash] (name :: p)) =
      joinWith [slash] ((name :: p).map fun _ => dots) := by
  rw [List.map_const', List.length_cons, ← Nat.zero_add (p.length + 1), ← climb_joinWith h]
  rfl

/-- A slash ends the first part of the text of a path. -/
theorem drop_text (hp : p ≠ []) (hq : q ≠ []) :
    (text (p ++ q)).drop ((joinWith [slash] p).length + 2) = joinWith [slash] q ∧
      (text (p ++ q)).drop 1 = joinWith [slash] p ++ slash :: joinWith [slash] q := by
  have hjoin := joinWith_append hp hq
  refine ⟨?_, hjoin⟩
  show (slash :: joinWith [slash] (p ++ q)).drop _ = _
  rw [hjoin, List.drop_succ_cons, List.drop_append, List.drop_eq_nil_of_le (by omega)]
  simp

/-- Where texts part within a component, the way goes over the directory of that component. -/
theorem Parting.Within.route {parting : Parting} {shared past : Nat}
    (h : parting.Within shared past) (hpos : 0 < shared) (source target : Text) :
    parting.route source target = detour source target past := by
  have hshared := Nat.lt_of_lt_of_le hpos h.shared
  obtain ⟨shared', past', x, y⟩ := parting
  obtain rfl : past' = past := h.past
  cases x with
  | nil =>
    obtain ⟨v, rest, hy, hv⟩ := h.source rfl
    obtain rfl : y = v :: rest := hy
    show (if v = slash then _ else if shared' = 0 then _ else _) = _
    rw [if_neg hv, if_neg (Nat.ne_of_gt hshared)]
  | cons u more =>
    cases y with
    | nil =>
      obtain ⟨v, rest, hx, hv⟩ := h.target rfl
      obtain ⟨rfl, rfl⟩ : u = v ∧ more = rest := List.cons.inj hx
      show (if u = slash then _ else if shared' = 0 then _ else _) = _
      rw [if_neg hv, if_neg (Nat.ne_of_gt hshared)]
    | cons v rest => rfl

/-- From a name to another one the way goes over the directory of both. -/
theorem route_of_ne {a b s t : Text} (ha : IsName a) (hb : IsName b) (hne : a ≠ b)
    (hs : s = [] ∨ ∃ r, s = slash :: r) (ht : t = [] ∨ ∃ r, t = slash :: r) (n : Nat)
    (source target : Text) :
    (part n n (a ++ s) (b ++ t)).route source target = detour source target n := by
  have haslash := ha.no_slash
  have hbslash := hb.no_slash
  obtain ⟨u, more, rfl⟩ := List.exists_cons_of_ne_nil ha.ne_nil
  obtain ⟨v, rest, rfl⟩ := List.exists_cons_of_ne_nil hb.ne_nil
  rw [List.mem_cons, not_or] at haslash hbslash
  rw [List.cons_append, List.cons_append, part]
  by_cases huv : u = v
  · subst huv
    have hwithin := part_within hs ht haslash.2 hbslash.2 (fun e => hne (by rw [e])) (n + 1) n
    rw [if_pos rfl, if_neg (Ne.symm haslash.1)]
    exact hwithin.route (Nat.succ_pos n) source target
  · rw [if_neg huv]
    rfl

/-- The way over the common start of two paths. -/
theorem detour_lead {a b : Text} (h : IsNormal (a :: up)) :
    detour (text (common ++ a :: up)) (text (common ++ b :: down)) (lead common).length =
      joinWith [slash] ((a :: up).map (fun _ => dots) ++ b :: down) := by
  obtain ⟨before, hbefore, hlength⟩ := exists_slash_lead common
  have hclimbed : (text (common ++ a :: up)).drop ((lead common).length + 1) =
      joinWith [slash] (a :: up) := by
    show (slash :: joinWith [slash] _).drop _ = _
    rw [List.drop_succ_cons, joinWith_append_lead (List.cons_ne_nil _ _), List.drop_left]
  have hleft : (text (common ++ b :: down)).drop (lead common).length =
      slash :: joinWith [slash] (b :: down) := by
    show (slash :: joinWith [slash] _).drop _ = _
    rw [joinWith_append_lead (List.cons_ne_nil _ _), ← List.cons_append, hbefore, ← hlength,
      List.append_assoc, List.drop_left]
    rfl
  unfold detour
  rw [hclimbed, hleft, climb_eq h, joinWith_append (by simp) (List.cons_ne_nil _ _)]

/-- From a path to one that parts from it within a component. -/
theorem between_apart {a b : Text} (hne : a ≠ b) (hp : IsNormal (common ++ a :: up))
    (hq : IsNormal (common ++ b :: down)) :
    between (text (common ++ a :: up)) (text (common ++ b :: down)) =
      joinWith [slash] ((a :: up).map (fun _ => dots) ++ b :: down) := by
  have ha : IsName a := hp a (by simp)
  have hb : IsName b := hq b (by simp)
  have hup : IsNormal (a :: up) := fun name h => hp name (List.mem_append_right _ h)
  obtain ⟨s, hs, hs'⟩ := joinWith_cons a up
  obtain ⟨t, ht, ht'⟩ := joinWith_cons b down
  have hpart : part 0 0 ((text (common ++ a :: up)).drop 1) ((text (common ++ b :: down)).drop 1) =
      part (lead common).length (lead common).length (a ++ s) (b ++ t) := by
    show part 0 0 (joinWith [slash] _) (joinWith [slash] _) = _
    rw [joinWith_append_lead (List.cons_ne_nil _ _), joinWith_append_lead (List.cons_ne_nil _ _),
      part_lead hp.of_append, Nat.zero_add, hs, ht]
  unfold between
  rw [hpart, route_of_ne ha hb hne hs' ht']
  exact detour_lead hup

theorem exists_head (h : IsNormal (name :: p)) :
    ∃ u rest, joinWith [slash] (name :: p) = u :: rest ∧ u ≠ slash := by
  have hname : IsName name := h name List.mem_cons_self
  obtain ⟨rest, hrest, -⟩ := joinWith_cons name p
  obtain ⟨u, more, rfl⟩ := List.exists_cons_of_ne_nil hname.ne_nil
  exact ⟨u, more ++ rest, hrest, fun e => hname.no_slash (by simp [e])⟩

/-- From a path to one inside it. -/
theorem between_down {b : Text} (hq : IsNormal (common ++ b :: down)) :
    between (text common) (text (common ++ b :: down)) = joinWith [slash] (b :: down) := by
  unfold between
  by_cases hcommon : common = []
  · subst hcommon
    obtain ⟨v, rest, hv, hne⟩ := exists_head hq
    have htarget : (text ([] ++ b :: down)).drop 1 = v :: rest := hv
    have hpart : part 0 0 ((text []).drop 1) (v :: rest) = ⟨0, 0, [], v :: rest⟩ := rfl
    rw [htarget, hpart]
    show (if v = slash then _ else _) = _
    rw [if_neg hne]
    exact hv.symm
  · obtain ⟨last, hlast⟩ := part_prefix 0 0 (joinWith [slash] common)
      (slash :: joinWith [slash] (b :: down))
    have hsource : (text common).drop 1 = joinWith [slash] common := rfl
    rw [(drop_text hcommon (List.cons_ne_nil _ _)).2, hsource, hlast]
    unfold Parting.route
    exact if_pos rfl

/-- From a path to one above it. -/
theorem between_up {a : Text} (hp : IsNormal (common ++ a :: up)) :
    between (text (common ++ a :: up)) (text common) =
      joinWith [slash] ((a :: up).map fun _ => dots) := by
  have hup : IsNormal (a :: up) := fun name h => hp name (List.mem_append_right _ h)
  unfold between
  by_cases hcommon : common = []
  · subst hcommon
    obtain ⟨u, rest, hu, hne⟩ := exists_head hp
    have hsource : (text ([] ++ a :: up)).drop 1 = u :: rest := hu
    have hpart : part 0 0 (u :: rest) ((text []).drop 1) = ⟨0, 0, u :: rest, []⟩ := rfl
    rw [hsource, hpart]
    show (if u = slash then _ else detour _ _ 1) = _
    rw [if_neg hne, ← climb_eq hup]
    show climb [] ((text (a :: up)).drop 2) ++ [] = _
    have hsecond : (text (a :: up)).drop 2 = rest := by
      show (slash :: joinWith [slash] (a :: up)).drop 2 = rest
      rw [hu]
      rfl
    have hfirst : climb [] (u :: rest) = climb [] rest := by
      rw [climb, if_neg hne]
    rw [hsecond, List.append_nil, ← hfirst, hu]
  · obtain ⟨last, hlast⟩ := part_prefix 0 0 (joinWith [slash] common)
      (slash :: joinWith [slash] (a :: up))
    have hswap := part_swap 0 0 (joinWith [slash] common)
      (joinWith [slash] common ++ slash :: joinWith [slash] (a :: up))
    have htarget : (text common).drop 1 = joinWith [slash] common := rfl
    obtain ⟨hdrop, hsource⟩ := drop_text hcommon (List.cons_ne_nil a up)
    rw [hsource, htarget, hswap, hlast]
    unfold Parting.route
    refine (if_pos rfl).trans ?_
    unfold detour
    rw [Nat.zero_add, hdrop, climb_eq hup, List.drop_eq_nil_of_le, List.append_nil]
    exact Nat.le_refl _

/-- Comparing normal forms unit by unit gives the text that components give. -/
theorem between_text (hp : IsNormal p) (hq : IsNormal q) (hne : p ≠ q) :
    between (text p) (text q) = Path.relative p q := by
  obtain ⟨common, hp', hq', hheads⟩ := afterCommon_spec p q
  unfold Path.relative
  generalize afterCommon p q = left at hp' hq' hheads
  obtain ⟨up, down⟩ := left
  subst hp' hq'
  cases up with
  | nil =>
    cases down with
    | nil => exact absurd rfl hne
    | cons b down =>
      simp only [List.append_nil]
      exact between_down hq
  | cons a up =>
    cases down with
    | nil =>
      simp only [List.append_nil]
      exact between_up hp
    | cons b down => exact between_apart (hheads a rfl b rfl) hp hq

theorem relative_self (p : Path) : Path.relative p p = [] := by
  have hnil : afterCommon p p = ([], []) := by
    induction p with
    | nil => rfl
    | cons name rest ih => rw [afterCommon, if_pos rfl, ih]
  unfold Path.relative
  rw [hnil]
  rfl

/-- The text that leads from one text to another is that between the paths they stand for. -/
theorem relative_eq {cwd : Text} (hcwd : isAbsolute cwd = true) (source target : Text) :
    relative cwd source target =
      Path.relative (Path.resolve (Path.resolve [] cwd) source)
        (Path.resolve (Path.resolve [] cwd) target) := by
  have hnormal := isNormal_resolve (isNormal_resolve isNormal_nil cwd)
  unfold relative
  split
  · next hsame =>
    rw [hsame, relative_self]
  · rw [resolve_eq_text hcwd, resolve_eq_text hcwd]
    split
    · next hsame =>
      have hread := congrArg (Path.resolve []) hsame
      rw [resolve_text _ (hnormal source), resolve_text _ (hnormal target)] at hread
      rw [hread, relative_self]
    · next hdiffer =>
      exact between_text (hnormal source) (hnormal target) fun e => hdiffer (congrArg text e)

end Scan

end Path

end BulkTransfer
