import BulkTransfer.Proofs.Path.Normal
import BulkTransfer.Text.Utf8

/-!
# Paths as they are stored

Storing a text replaces surrogates that stand alone and leaves all other units as they are.  So a
text that is stored without a replacement is stored as itself (`stored_eq_self`), and the text of a
path is stored component by component (`stored_text`); the components stay names (`IsName.stored`).
-/

namespace BulkTransfer

namespace Text

theorem unpaired_eq_self {u : UInt16} (h : unpaired u ≠ replacement) : unpaired u = u := by
  rw [unpaired] at h ⊢
  split
  · next hpart => exact absurd (if_pos hpart) h
  · rfl

/-- A text that is stored without the replacement character is stored as itself. -/
theorem stored_eq_self {t : Text} (h : replacement ∉ stored t) : stored t = t := by
  fun_induction stored t with
  | case1 => rfl
  | case2 u =>
    rw [List.mem_singleton] at h
    rw [unpaired_eq_self (Ne.symm h)]
  | case3 u v rest hpair ih =>
    rw [List.mem_cons, List.mem_cons, not_or, not_or] at h
    rw [ih h.2.2]
  | case4 u v rest hpair ih =>
    rw [List.mem_cons, not_or] at h
    rw [unpaired_eq_self (Ne.symm h.1), ih h.2]

theorem stored_ne_nil {t : Text} (h : t ≠ []) : stored t ≠ [] := by
  fun_cases stored t <;> simp_all

/-! ## Slashes -/

theorem unpaired_slash : unpaired slash = slash := by decide +kernel

theorem unpaired_eq_slash_iff (u : UInt16) : unpaired u = slash ↔ u = slash := by
  constructor
  · intro h
    have hne : unpaired u ≠ replacement := by
      rw [h]
      decide +kernel
    rwa [unpaired_eq_self hne] at h
  · rintro rfl
    exact unpaired_slash

theorem slash_mem_stored_iff (t : Text) : slash ∈ stored t ↔ slash ∈ t := by
  fun_induction stored t with
  | case1 => rfl
  | case2 u => simp [eq_comm (a := slash), unpaired_eq_slash_iff]
  | case3 u v rest hpair ih => simp [ih]
  | case4 u v rest hpair ih => simp [eq_comm (a := slash), unpaired_eq_slash_iff, ih]

theorem stored_slash_cons (t : Text) : stored (slash :: t) = slash :: stored t := by
  cases t with
  | nil => rfl
  | cons v rest =>
    have hhigh : isHighSurrogate slash = false := by decide +kernel
    simp [stored, hhigh, unpaired_slash]

/-- No surrogate stands in a pair over a slash. -/
theorem stored_append_slash (s t : Text) :
    stored (s ++ slash :: t) = stored s ++ slash :: stored t := by
  fun_induction stored s with
  | case1 => exact stored_slash_cons t
  | case2 u =>
    have hlow : isLowSurrogate slash = false := by decide +kernel
    rw [List.singleton_append, stored, hlow, Bool.and_false, if_neg Bool.false_ne_true,
      stored_slash_cons]
    rfl
  | case3 u v rest hpair ih =>
    rw [List.cons_append, List.cons_append, stored, if_pos hpair, ih]
    rfl
  | case4 u v rest hpair ih =>
    rw [List.cons_append, List.cons_append, stored, if_neg hpair, ← List.cons_append, ih]
    rfl

theorem stored_joinWith (pieces : List Text) :
    stored (joinWith [slash] pieces) = joinWith [slash] (pieces.map stored) := by
  induction pieces with
  | nil => rfl
  | cons piece rest ih =>
    cases rest with
    | nil => rfl
    | cons next more =>
      rw [joinWith_cons_cons, stored_append_slash, ih]
      simp only [List.map_cons]
      rw [joinWith_cons_cons]

end Text

/-! ## Paths -/

namespace Path

/-- The text of a path is stored component by component. -/
theorem stored_text (p : Path) : Text.stored (text p) = text (p.map Text.stored) := by
  rw [text, Text.stored_slash_cons, Text.stored_joinWith, text]

theorem IsName.stored {name : Text} (h : IsName name) : IsName (Text.stored name) where
  ne_nil := Text.stored_ne_nil h.ne_nil
  ne_dot := fun e => h.ne_dot (by rw [← e, Text.stored_eq_self (by rw [e]; decide +kernel)])
  ne_dots := fun e => h.ne_dots (by rw [← e, Text.stored_eq_self (by rw [e]; decide +kernel)])
  no_slash := fun hmem => h.no_slash ((Text.slash_mem_stored_iff name).1 hmem)

theorem IsNormal.stored {p : Path} (h : IsNormal p) : IsNormal (p.map Text.stored) := by
  intro name hname
  obtain ⟨plain, hplain, rfl⟩ := List.mem_map.1 hname
  exact (h plain hplain).stored

end Path

end BulkTransfer
