import BulkTransfer.Naming.Clean

/-!
# What cleaning shows of a text

Cleaning leaves a plain blank for each run of blanks (`space_mem_collapseBlanks`), so a clean text
without plain blanks that was not cut is the trimmed text without its control units
(`clean_eq_filter`).
-/

namespace BulkTransfer

namespace Text

/-! ## Runs of blanks -/

theorem isBlank_space : isBlank space = true := by decide

/-- Blanks leave a plain one. -/
theorem space_mem_collapseBlanks {t : Text} (h : ∃ u ∈ t, isBlank u = true) :
    space ∈ collapseBlanks t := by
  fun_induction collapseBlanks t with
  | case1 => simp at h
  | case2 v =>
    have hv : isBlank v = true := by simpa using h
    simp [hv]
  | case3 v w rest hv hw ih => exact ih ⟨w, List.mem_cons_self, hw⟩
  | case4 v w rest hv hw ih => exact List.mem_cons_self
  | case5 v w rest hv ih =>
    obtain ⟨u, hu, hblank⟩ := h
    rcases List.mem_cons.1 hu with rfl | hu
    · exact absurd hblank hv
    · exact List.mem_cons_of_mem _ (ih ⟨u, hu, hblank⟩)

/-- The blanks of a text are plain ones, and no two of them stand in a row. -/
structure IsSpaced (t : Text) : Prop where
  plain : ∀ u ∈ t, isBlank u = true → u = space
  apart : ¬ [space, space] <:+: t

theorem IsSpaced.of_isInfix {s t : Text} (h : IsSpaced t) (hs : s <:+: t) : IsSpaced s where
  plain := fun u hu => h.plain u (hs.mem hu)
  apart := fun hspaces => h.apart (hspaces.trans hs)

theorem IsSpaced.tail {u : UInt16} {t : Text} (h : IsSpaced (u :: t)) : IsSpaced t :=
  h.of_isInfix (List.suffix_cons u t).isInfix

theorem collapseBlanks_of_isSpaced {t : Text} (h : IsSpaced t) : collapseBlanks t = t := by
  fun_induction collapseBlanks t with
  | case1 => rfl
  | case2 v =>
    split
    · next hv => rw [h.plain v List.mem_cons_self hv]
    · rfl
  | case3 v w rest hv hw ih =>
    refine absurd ?_ h.apart
    rw [h.plain v List.mem_cons_self hv, h.tail.plain w List.mem_cons_self hw]
    exact (List.prefix_append [space, space] rest).isInfix
  | case4 v w rest hv hw ih => rw [h.plain v List.mem_cons_self hv, ih h.tail]
  | case5 v w rest hv ih => rw [ih h.tail]

theorem isSpaced_of_not_isBlank {t : Text} (h : ∀ u ∈ t, isBlank u = false) : IsSpaced t where
  plain := fun u hu hblank => by
    rw [h u hu] at hblank
    cases hblank
  apart := fun hspaces => by
    have hblank := h space (hspaces.mem List.mem_cons_self)
    rw [isBlank_space] at hblank
    cases hblank

theorem collapseBlanks_eq_self {t : Text} (h : ∀ u ∈ t, isBlank u = false) :
    collapseBlanks t = t :=
  collapseBlanks_of_isSpaced (isSpaced_of_not_isBlank h)

/-! ## Clean text -/

/-- A clean text without plain blanks that was not cut is the trimmed text without its control
units. -/
theorem clean_eq_filter {t : Text} (hlength : (clean t).length < cleanLimit)
    (hspace : space ∉ clean t) : clean t = (trim t).filter fun u => !isControl u := by
  rw [clean] at hlength hspace ⊢
  rw [List.length_take] at hlength
  rw [List.take_of_length_le (by omega)] at hspace ⊢
  refine collapseBlanks_eq_self fun u hu => Bool.eq_false_iff.2 fun hblank => ?_
  exact hspace (space_mem_collapseBlanks ⟨u, hu, hblank⟩)

end Text

end BulkTransfer
