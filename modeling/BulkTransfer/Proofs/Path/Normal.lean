import BulkTransfer.Path
import BulkTransfer.Proofs.Text.Split

/-!
# Paths in normal form

The components of a path in normal form are names: not empty, without a slash, and neither dot nor
two dots.  Reading text gives such a path, if the working directory is one (`isNormal_resolve`), and
writing one and reading it again gives it back (`resolve_text`).
-/

namespace BulkTransfer

namespace Path

/-- A component that names an entry of a directory. -/
structure IsName (name : Text) : Prop where
  ne_nil : name ≠ []
  ne_dot : name ≠ dot
  ne_dots : name ≠ dots
  no_slash : Text.slash ∉ name

def IsNormal (path : Path) : Prop := ∀ name ∈ path, IsName name

instance (name : Text) : Decidable (IsName name) :=
  decidable_of_iff (name ≠ [] ∧ name ≠ dot ∧ name ≠ dots ∧ Text.slash ∉ name)
    ⟨fun ⟨hnil, hdot, hdots, hslash⟩ => ⟨hnil, hdot, hdots, hslash⟩,
      fun h => ⟨h.ne_nil, h.ne_dot, h.ne_dots, h.no_slash⟩⟩

instance (path : Path) : Decidable (IsNormal path) :=
  inferInstanceAs (Decidable (∀ name ∈ path, IsName name))

theorem isNormal_nil : IsNormal [] := fun _ h => absurd h List.not_mem_nil

theorem IsNormal.append {p q : Path} (hp : IsNormal p) (hq : IsNormal q) : IsNormal (p ++ q) := by
  intro name h
  rcases List.mem_append.1 h with h | h
  · exact hp name h
  · exact hq name h

theorem IsNormal.dropLast {p : Path} (h : IsNormal p) : IsNormal p.dropLast :=
  fun name hname => h name (List.dropLast_subset p hname)

theorem IsNormal.of_cons {name : Text} {rest : Path} (h : IsNormal (name :: rest)) :
    IsNormal rest :=
  fun other hother => h other (List.mem_cons_of_mem _ hother)

theorem IsNormal.of_append {p q : Path} (h : IsNormal (p ++ q)) : IsNormal p :=
  fun name hname => h name (List.mem_append_left _ hname)

/-! ## Steps -/

theorem step_of_isName {name : Text} (p : Path) (h : IsName name) : step p name = p ++ [name] := by
  rw [step, if_neg (by simp [h.ne_nil, h.ne_dot]), if_neg h.ne_dots]

/-- A name leads one component further. -/
theorem join_of_isName {name : Text} (p : Path) (h : IsName name) : join p name = p ++ [name] := by
  rw [join, Text.split_of_not_mem h.no_slash, List.foldl_cons, List.foldl_nil, step_of_isName p h]

theorem isNormal_step {p : Path} {name : Text} (hp : IsNormal p) (h : Text.slash ∉ name) :
    IsNormal (step p name) := by
  rw [step]
  split
  · exact hp
  · next hstay =>
    split
    · exact hp.dropLast
    · next hdots =>
      rw [not_or] at hstay
      refine hp.append fun other hother => ?_
      rw [List.mem_singleton.1 hother]
      exact ⟨hstay.1, hstay.2, hdots, h⟩

theorem foldl_step_of_isNormal (p : Path) {names : Path} (h : IsNormal names) :
    names.foldl step p = p ++ names := by
  induction names generalizing p with
  | nil => simp
  | cons name rest ih =>
    rw [List.foldl_cons, step_of_isName p (h name List.mem_cons_self),
      ih _ fun other hother => h other (List.mem_cons_of_mem _ hother)]
    simp

/-! ## Reading -/

theorem isNormal_foldl_step {p : Path} {pieces : List Text} (hp : IsNormal p)
    (h : ∀ piece ∈ pieces, Text.slash ∉ piece) : IsNormal (pieces.foldl step p) := by
  induction pieces generalizing p with
  | nil => exact hp
  | cons piece rest ih =>
    exact ih (isNormal_step hp (h piece List.mem_cons_self))
      fun other hother => h other (List.mem_cons_of_mem _ hother)

theorem isNormal_join {base : Path} (h : IsNormal base) (t : Text) : IsNormal (join base t) :=
  isNormal_foldl_step h fun _ => Text.not_mem_of_mem_split

theorem isNormal_resolve {cwd : Path} (h : IsNormal cwd) (t : Text) : IsNormal (resolve cwd t) := by
  rw [resolve]
  split
  · exact isNormal_join isNormal_nil t
  · exact isNormal_join h t

/-! ## Writing and reading again -/

theorem isAbsolute_text (p : Path) : isAbsolute (text p) = true := by
  simp [isAbsolute, text]

theorem split_text (p : Path) :
    Text.split Text.slash (text p) = [] :: Text.split Text.slash (Text.joinWith [Text.slash] p) :=
  Text.split_cons_self _

/-- The text of a path in normal form is read as the path. -/
theorem resolve_text (cwd : Path) {p : Path} (h : IsNormal p) : resolve cwd (text p) = p := by
  rw [resolve, if_pos (isAbsolute_text p), join, split_text]
  cases p with
  | nil => rfl
  | cons name rest =>
    rw [Text.split_joinWith (List.cons_ne_nil _ _) fun other hother => (h other hother).no_slash]
    have hstay : step [] [] = [] := rfl
    rw [List.foldl_cons, hstay, foldl_step_of_isNormal [] h, List.nil_append]

end Path

end BulkTransfer
