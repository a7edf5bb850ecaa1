import BulkTransfer.Proofs.Path.Parent

/-!
# Paths read unit by unit

A path is read by its components.  POSIX path functions know none: `Scan.normalForm` goes over the
units of a text once and writes the normal form as it goes, taking back what it wrote where two dots
go up.  It comes to the same (`Scan.normalForm_eq`), so the absolute path that text stands for is
the text of the path to which its components lead (`Scan.resolve_eq_text`).
-/

namespace BulkTransfer

namespace Path

open Text

/-! ## The normal form of a text -/

/-- How far the text of a path has been read: the normal form of what was read, the length of its
last component, the units since the last slash, and how many these are while they are dots only. -/
structure Scan where
  written : Text
  lastLength : Nat
  piece : Text
  dotCount : Option Nat

namespace Scan

def start : Scan := ⟨[], 0, [], some 0⟩

/-- The scan at the beginning of the next component. -/
def goOn (written : Text) (lastLength : Nat) : Scan := ⟨written, lastLength, [], some 0⟩

/-- Where the last slash of a text stands. -/
def lastSlash? : Text → Option Nat
  | [] => none
  | u :: rest =>
    match lastSlash? rest with
    | some i => some (i + 1)
    | none => if u = slash then some 0 else none

/-- The length of what follows the last slash. -/
def lengthOfLast (t : Text) : Nat :=
  match lastSlash? t with
  | some i => t.length - 1 - i
  | none => t.length

/-- Takes the last component back, unless it is two dots itself. -/
def up (s : Scan) : Scan :=
  if s.written.length < 2 ∨ s.lastLength ≠ 2 ∨ s.written.drop (s.written.length - 2) ≠ dots then
    if 2 < s.written.length then
      match lastSlash? s.written with
      | some i => goOn (s.written.take i) (lengthOfLast (s.written.take i))
      | none => goOn [] 0
    else goOn [] 0
  else goOn s.written s.lastLength

/-- Ends a component. -/
def close (s : Scan) : Scan :=
  if s.piece = [] ∨ s.dotCount = some 1 then goOn s.written s.lastLength
  else if s.dotCount = some 2 then s.up
  else if s.written = [] then goOn s.piece s.piece.length
  else goOn (s.written ++ slash :: s.piece) s.piece.length

def read (s : Scan) (u : UInt16) : Scan :=
  if u = slash then s.close
  else
    { s with
      piece := s.piece ++ [u]
      dotCount := if u = unit '.' then s.dotCount.map (· + 1) else none }

/-- The normal form of an absolute path, without the slash at its start. -/
def normalForm (t : Text) : Text := (t.foldl read start).close.written

/-- The absolute path that text stands for in a working directory. -/
def resolve (cwd t : Text) : Text :=
  let rest := if t = [] then [] else t ++ [slash]
  slash :: normalForm (if isAbsolute t then rest else cwd ++ slash :: rest)

/-- A scan has read the components of a path, and some units of the next one. -/
structure Reads (s : Scan) (p : Path) (begun : Text) : Prop where
  normal : IsNormal p
  written : s.written = joinWith [slash] p
  lastLength : s.lastLength = (p.getLastD []).length
  piece : s.piece = begun
  dotCount : ∀ n, s.dotCount = some n ↔ begun = List.replicate n (unit '.')
  no_slash : slash ∉ begun

variable {s : Scan} {p q : Path} {begun name : Text}

theorem lastSlash?_of_not_mem {t : Text} (h : slash ∉ t) : lastSlash? t = none := by
  induction t with
  | nil => rfl
  | cons u rest ih =>
    rw [List.mem_cons, not_or] at h
    simp [lastSlash?, ih h.2, Ne.symm h.1]

theorem lastSlash?_append {t : Text} (r : Text) (h : slash ∉ t) :
    lastSlash? (r ++ slash :: t) = some r.length := by
  induction r with
  | nil => simp [lastSlash?, lastSlash?_of_not_mem h]
  | cons u rest ih => simp [lastSlash?, ih]

theorem joinWith_concat (hp : p ≠ []) :
    joinWith [slash] (p ++ [name]) = joinWith [slash] p ++ slash :: name :=
  joinWith_append hp (List.cons_ne_nil _ _)

theorem joinWith_ne_nil (h : IsNormal p) (hp : p ≠ []) : joinWith [slash] p ≠ [] := by
  rcases List.eq_nil_or_concat p with rfl | ⟨q, name, rfl⟩
  · exact absurd rfl hp
  · rw [List.concat_eq_append] at h ⊢
    by_cases hq : q = []
    · subst hq
      exact (h name (by simp)).ne_nil
    · rw [joinWith_concat hq]
      simp

theorem exists_joinWith_concat (p : Path) (name : Text) :
    ∃ before, joinWith [slash] (p ++ [name]) = before ++ name := by
  by_cases hp : p = []
  · subst hp
    exact ⟨[], rfl⟩
  · refine ⟨joinWith [slash] p ++ [slash], ?_⟩
    rw [joinWith_concat hp, List.append_assoc]
    rfl

/-- In the text of components in normal form the last one follows the last slash. -/
theorem lengthOfLast_joinWith (h : IsNormal p) :
    lengthOfLast (joinWith [slash] p) = (p.getLastD []).length := by
  rcases List.eq_nil_or_concat p with rfl | ⟨q, name, rfl⟩
  · rfl
  · rw [List.concat_eq_append] at h ⊢
    have hname := (h name (by simp)).no_slash
    rw [List.getLastD_concat]
    unfold lengthOfLast
    by_cases hq : q = []
    · subst hq
      show (match lastSlash? name with | some i => _ | none => name.length) = name.length
      rw [lastSlash?_of_not_mem hname]
    · rw [joinWith_concat hq, lastSlash?_append _ hname]
      simp

theorem reads_goOn (h : IsNormal p) :
    (goOn (joinWith [slash] p) (p.getLastD []).length).Reads p [] where
  normal := h
  written := rfl
  lastLength := rfl
  piece := rfl
  dotCount := fun n => by cases n <;> simp [goOn, List.replicate_succ]
  no_slash := List.not_mem_nil

/-- Taking a component back leaves the components before it. -/
theorem Reads.up (h : s.Reads p begun) : s.up.Reads p.dropLast [] := by
  have hrest := reads_goOn h.normal.dropLast
  unfold Scan.up
  rcases List.eq_nil_or_concat p with rfl | ⟨q, name, rfl⟩
  · have hwritten : s.written = [] := h.written
    rw [hwritten]
    exact hrest
  · have hnormal := h.normal
    have hwritten := h.written
    have hlast := h.lastLength
    rw [List.concat_eq_append] at hnormal hwritten hlast hrest ⊢
    rw [List.getLastD_concat] at hlast
    rw [List.dropLast_concat] at hrest ⊢
    have hname := hnormal name (by simp)
    -- The last component is a name, so it is not two dots.
    have hgo : s.written.length < 2 ∨ s.lastLength ≠ 2 ∨
        s.written.drop (s.written.length - 2) ≠ dots := by
      obtain ⟨before, hbefore⟩ := exists_joinWith_concat q name
      by_cases htwo : s.lastLength = 2
      · right
        right
        have hdrop : s.written.drop (s.written.length - 2) = name := by
          rw [hwritten, hbefore, List.length_append, ← hlast, htwo, Nat.add_sub_cancel,
            List.drop_left]
        rw [hdrop]
        exact hname.ne_dots
      · exact .inr (.inl htwo)
    rw [if_pos hgo]
    by_cases hq : q = []
    · subst hq
      have hnone : lastSlash? s.written = none := by
        rw [hwritten]
        exact lastSlash?_of_not_mem hname.no_slash
      rw [hnone]
      split <;> exact hrest
    · have hpos := List.length_pos_iff.2 (joinWith_ne_nil hnormal.of_append hq)
      have hpos' := List.length_pos_iff.2 hname.ne_nil
      rw [joinWith_concat hq] at hwritten
      rw [hwritten, lastSlash?_append _ hname.no_slash, if_pos]
      · show (goOn (List.take _ _) (lengthOfLast (List.take _ _))).Reads q []
        rw [List.take_left, lengthOfLast_joinWith hnormal.of_append]
        exact hrest
      · rw [List.length_append, List.length_cons]
        omega

/-- Ending a component is a step of the path. -/
theorem Reads.close (h : s.Reads p begun) : s.close.Reads (step p begun) [] := by
  have hdot : s.dotCount = some 1 ↔ begun = dot := h.dotCount 1
  have hdots : s.dotCount = some 2 ↔ begun = dots := h.dotCount 2
  unfold Scan.close step
  simp only [h.piece, hdot, hdots, h.written, h.lastLength]
  split
  · exact reads_goOn h.normal
  · next hstay =>
    split
    · exact h.up
    · next hup =>
      rw [not_or] at hstay
      have hname : IsName begun := ⟨hstay.1, hstay.2, hup, h.no_slash⟩
      have hnormal : IsNormal (p ++ [begun]) :=
        h.normal.append fun other hother => List.mem_singleton.1 hother ▸ hname
      have hnext := reads_goOn hnormal
      rw [List.getLastD_concat] at hnext
      by_cases hp : p = []
      · subst hp
        exact hnext
      · rw [if_neg (joinWith_ne_nil h.normal hp), ← joinWith_concat hp]
        exact hnext

/-- A unit that is no slash belongs to the component that is being read. -/
theorem Reads.read (h : s.Reads p begun) {u : UInt16} (hu : u ≠ slash) :
    (s.read u).Reads p (begun ++ [u]) := by
  unfold Scan.read
  rw [if_neg hu]
  refine ⟨h.normal, h.written, h.lastLength, by rw [h.piece], fun n => ?_, ?_⟩
  · cases n with
    | zero => split <;> simp
    | succ n =>
      have hcount := h.dotCount n
      rw [List.replicate_succ']
      by_cases hdot : u = unit '.'
      · simp [hdot, hcount]
      · simp [hdot]
  · simp [h.no_slash, Ne.symm hu]

/-- Reading text to its end takes its components as steps of the path. -/
theorem Reads.finish (h : s.Reads p begun) (t : Text) :
    (t.foldl Scan.read s).close.Reads ((split slash (begun ++ t)).foldl step p) [] := by
  induction t generalizing s p begun with
  | nil =>
    rw [List.append_nil, split_of_not_mem h.no_slash]
    exact h.close
  | cons u rest ih =>
    rw [List.foldl_cons]
    by_cases hu : u = slash
    · subst hu
      have hread : s.read slash = s.close := if_pos rfl
      rw [hread, split_append_cons, split_of_not_mem h.no_slash, List.foldl_append]
      exact ih h.close
    · rw [List.append_cons]
      exact ih (h.read hu)

/-- The normal form of a text is the text of the path to which it leads from the root. -/
theorem normalForm_eq (t : Text) : normalForm t = joinWith [slash] (join [] t) :=
  ((reads_goOn isNormal_nil).finish t).written

theorem join_append_slash (base : Path) (s t : Text) :
    join base (s ++ slash :: t) = join (join base s) t := by
  unfold join
  rw [split_append_cons, List.foldl_append]

/-- Read unit by unit, text stands for the path to which its components lead. -/
theorem resolve_eq_text {cwd : Text} (hcwd : isAbsolute cwd = true) (t : Text) :
    resolve cwd t = text (Path.resolve (Path.resolve [] cwd) t) := by
  have hnil : ∀ base : Path, join base [] = base := fun base => rfl
  have hbase : Path.resolve [] cwd = join [] cwd := by
    unfold Path.resolve
    rw [if_pos hcwd]
  show slash :: normalForm _ = _
  rw [normalForm_eq, hbase]
  show text (join [] _) = _
  apply congrArg text
  unfold Path.resolve
  by_cases ht : t = []
  · subst ht
    show join [] (cwd ++ slash :: []) = _
    rw [join_append_slash]
    rfl
  · rw [if_neg ht]
    by_cases habsolute : isAbsolute t = true
    · rw [if_pos habsolute, if_pos habsolute, join_append_slash, hnil]
    · rw [if_neg habsolute, if_neg habsolute, join_append_slash, join_append_slash, hnil]

end Scan

end Path

end BulkTransfer
