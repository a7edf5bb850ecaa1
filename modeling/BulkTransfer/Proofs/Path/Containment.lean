import BulkTransfer.Proofs.Path.Normal

/-!
# Containment of paths

Whether a path lies inside a directory is judged by the text that leads from one to the other.  For
paths in normal form this text leads out exactly when the directory is no proper prefix of the path
(`leadsOut_relative_eq_false_iff`), so the check of a path (`escape?_eq_none_iff`) is one on
components.
-/

namespace BulkTransfer

namespace Path

/-- A path lies strictly inside a directory: the directory is a proper prefix of it. -/
def Inside (base path : Path) : Prop := base <+: path ∧ base ≠ path

/-! ## The common start of two paths -/

/-- Two paths are their common start and what is left of either, and a common start is not longer
while both go on alike. -/
theorem afterCommon_spec (p q : Path) :
    ∃ common, p = common ++ (afterCommon p q).1 ∧ q = common ++ (afterCommon p q).2 ∧
      ∀ a ∈ (afterCommon p q).1.head?, ∀ b ∈ (afterCommon p q).2.head?, a ≠ b := by
  fun_induction afterCommon p q with
  | case1 p a q ih =>
    obtain ⟨common, hp, hq, hhead⟩ := ih
    exact ⟨a :: common, by rw [List.cons_append, ← hp], by rw [List.cons_append, ← hq], hhead⟩
  | case2 _ _ _ _ hne =>
    exact ⟨[], rfl, rfl, by simpa using hne⟩
  | case3 p q h =>
    refine ⟨[], rfl, rfl, fun a ha b hb => ?_⟩
    rcases p with _ | ⟨a', p⟩
    · simp at ha
    · rcases q with _ | ⟨b', q⟩
      · simp at hb
      · exact absurd rfl (h a' p b' q rfl)

/-- Nothing is left of a path after its common start with another one exactly when it is a prefix
of the other one. -/
theorem afterCommon_fst_eq_nil_iff (p q : Path) : (afterCommon p q).1 = [] ↔ p <+: q := by
  obtain ⟨common, hp, hq, hhead⟩ := afterCommon_spec p q
  constructor
  · intro h
    rw [h, List.append_nil] at hp
    exact ⟨_, by rw [hp]; exact hq.symm⟩
  · rintro ⟨rest, hrest⟩
    have hwhole : common ++ ((afterCommon p q).1 ++ rest) = common ++ (afterCommon p q).2 := by
      rw [← List.append_assoc, ← hp, ← hq]
      exact hrest
    have hdown := List.append_cancel_left hwhole
    -- Otherwise what is left of both paths would begin alike.
    rcases hup : (afterCommon p q).1 with _ | ⟨a, up⟩
    · rfl
    · rw [hup, List.cons_append] at hdown
      exact absurd rfl (hhead a (by simp [hup]) a (by simp [← hdown]))

/-! ## Text that leads out -/

theorem takeWhile_of_not_mem {name : Text} (h : Text.slash ∉ name) (t : Text) :
    (name ++ Text.slash :: t).takeWhile (· != Text.slash) = name := by
  rw [List.takeWhile_append_of_pos]
  · simp
  · intro u hu
    have hne : u ≠ Text.slash := fun e => h (e ▸ hu)
    simpa using hne

theorem leadsOut_cons_dots (rest : List Text) :
    leadsOut (Text.joinWith [Text.slash] (dots :: rest)) = true := by
  cases rest with
  | nil => rfl
  | cons next more =>
    rw [Text.joinWith_cons_cons]
    simp [leadsOut, dots, Text.ofString, Text.unitsOf]

theorem leadsOut_eq_false_iff {t : Text} :
    leadsOut t = false ↔
      t ≠ [] ∧ t ≠ dots ∧ ¬ (dots ++ [Text.slash]) <+: t ∧ t.head? ≠ some Text.slash := by
  simp [leadsOut, isAbsolute, and_assoc, ← List.isPrefixOf_iff_prefix]

theorem leadsOut_of_isName {name : Text} (rest : List Text) (h : IsName name) :
    leadsOut (Text.joinWith [Text.slash] (name :: rest)) = false := by
  have hhead : name.head? ≠ some Text.slash := fun e => h.no_slash (List.mem_of_mem_head? e)
  rw [leadsOut_eq_false_iff]
  cases rest with
  | nil =>
    refine ⟨h.ne_nil, h.ne_dots, fun hbegins => ?_, hhead⟩
    exact h.no_slash (hbegins.subset (by simp))
  | cons next more =>
    rw [Text.joinWith_cons_cons]
    refine ⟨by simp, fun e => ?_, fun hbegins => ?_, ?_⟩
    · have hslash : Text.slash ∈ dots := e ▸ by simp
      exact absurd hslash (by decide)
    · obtain ⟨rest, hrest⟩ := hbegins
      have hstart := congrArg (List.takeWhile (· != Text.slash)) hrest
      rw [List.append_assoc, List.singleton_append, takeWhile_of_not_mem (by decide),
        takeWhile_of_not_mem h.no_slash] at hstart
      exact h.ne_dots hstart.symm
    · rw [List.head?_append, Option.or_of_isSome (by simpa using h.ne_nil)]
      exact hhead

/-- The text from a directory to a path leads out unless the directory is a proper prefix of the
path. -/
theorem leadsOut_relative_eq_false_iff {base path : Path} (h : IsNormal path) :
    leadsOut (relative base path) = false ↔ Inside base path := by
  obtain ⟨common, hbase, hpath, -⟩ := afterCommon_spec base path
  have hiff := afterCommon_fst_eq_nil_iff base path
  rw [Inside, ← hiff, relative]
  generalize afterCommon base path = parts at hbase hpath
  obtain ⟨up, down⟩ := parts
  cases up with
  | nil =>
    rw [List.append_nil] at hbase
    subst hbase
    cases down with
    | nil => simp [hpath, leadsOut, Text.joinWith]
    | cons name rest =>
      have hname : IsName name := h name (by simp [hpath])
      have hne : base ≠ path := fun e => by simp [← e] at hpath
      simp [leadsOut_of_isName rest hname, hne]
  | cons a up => simp [leadsOut_cons_dots]

/-- A path passes the check exactly when it lies strictly inside the directory. -/
theorem escape?_eq_none_iff {cwd : Path} (h : IsNormal cwd) (base candidate : Text) :
    escape? cwd base candidate = none ↔ Inside (resolve cwd base) (resolve cwd candidate) := by
  rw [escape?, ← leadsOut_relative_eq_false_iff (isNormal_resolve h candidate)]
  split
  · next hout => simp [hout]
  · next hin => simpa using hin

end Path

end BulkTransfer
