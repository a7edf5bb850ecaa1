import BulkTransfer.Proofs.Naming.KeyPrefix
import BulkTransfer.Proofs.Text.Trim

/-!
# Checking normal forms again

The normal form of an accepted key prefix is its trimmed text, closed by a slash, and the cleaned
form of that is the cleaned form of the prefix, closed likewise (`clean_normalize`).  So the normal
form is accepted as well, unless the slash is one unit too many, or stands alone after cleaning
because the prefix holds control units and nothing else (`fault?_normalize`).
-/

namespace BulkTransfer

namespace KeyPrefix

open Text

theorem isBlank_slash : isBlank slash = false := by decide

theorem isControl_slash : isControl slash = false := by decide

theorem isBlank_of_isAllowed {u : UInt16} (h : isAllowed u = true) : isBlank u = false := by
  obtain ⟨hlow, hhigh⟩ := lt_of_isAllowed h
  rw [UInt16.lt_iff_toNat_lt] at hlow hhigh
  simp [isBlank, ← UInt16.toNat_inj, UInt16.le_iff_toNat_le] at hlow hhigh ⊢
  omega

/-! ## Closed texts -/

/-- A text that closing leaves as it is. -/
def IsClosed (t : Text) : Prop := t = [] ∨ t.getLast? = some slash

instance (t : Text) : Decidable (IsClosed t) := inferInstanceAs (Decidable (_ ∨ _))

theorem closeSlash_of_isClosed {t : Text} (h : IsClosed t) : closeSlash t = t := by
  rcases h with rfl | hlast
  · rfl
  · simp [closeSlash, hlast]

theorem closeSlash_of_not_isClosed {t : Text} (h : ¬ IsClosed t) :
    closeSlash t = t ++ [slash] := by
  unfold IsClosed at h
  unfold closeSlash
  split
  · next hnone => exact absurd (.inl (List.getLast?_eq_none_iff.1 hnone)) h
  · next u hlast =>
    apply if_neg
    rintro rfl
    exact h (.inr hlast)

theorem isTrimmed_closeSlash {t : Text} (h : IsTrimmed t) : IsTrimmed (closeSlash t) := by
  by_cases hclosed : IsClosed t
  · rwa [closeSlash_of_isClosed hclosed]
  · constructor
    · rw [head?_closeSlash]
      exact h.head
    · rw [closeSlash_of_not_isClosed hclosed]
      simp [isBlank_slash]

/-! ## The check of a normal form -/

theorem trim_normalize {t : Text} (h : fault? t = none) :
    trim (normalize (some t)) = normalize (some t) := by
  rw [normalize_eq_of_accepted h]
  exact trim_eq_self (isTrimmed_closeSlash (isTrimmed_trim t))

/-- The normal form of an accepted key prefix holds no blank. -/
theorem isBlank_of_mem_filter {t : Text} (h : fault? t = none) {u : UInt16}
    (hu : u ∈ (normalize (some t)).filter fun u => !isControl u) : isBlank u = false := by
  obtain ⟨hmem, hcontrol⟩ := List.mem_filter.1 hu
  apply isBlank_of_isAllowed
  rw [(normalize_of_accepted t h).2.1 u hmem]
  exact hcontrol

theorem clean_normalize {t : Text} (h : fault? t = none) :
    clean (normalize (some t)) =
      if IsClosed (trim t) then clean t else clean t ++ [slash] := by
  have hlength := (fault?_eq_none_iff.1 h).1
  have hfilter : ((normalize (some t)).filter fun u => !isControl u) =
      if IsClosed (trim t) then clean t else clean t ++ [slash] := by
    rw [normalize_eq_of_accepted h, clean_of_accepted h]
    split
    · next hclosed => rw [closeSlash_of_isClosed hclosed]
    · next hopen => simp [closeSlash_of_not_isClosed hopen, isControl_slash]
  have hshort :
      (if IsClosed (trim t) then clean t else clean t ++ [slash]).length ≤ cleanLimit := by
    unfold limit at hlength
    unfold cleanLimit
    split
    · omega
    · simp only [List.length_append, List.length_singleton]
      omega
  unfold clean
  rw [trim_normalize h, collapseBlanks_eq_self fun u hu => isBlank_of_mem_filter h hu, hfilter]
  exact List.take_of_length_le hshort

/-- Closing a clean text that is accepted breaks no rule but that of the length, and that of the
first unit when the text is empty. -/
theorem fault?_of_clean_eq_append {t s : Text} (h : fault? t = none)
    (hclean : clean s = clean t ++ [slash]) :
    fault? s =
      if clean t = [] then some .leadingSlash
      else if (clean t).length = limit then some .length
      else none := by
  obtain ⟨hlength, hhead, hallowed⟩ := fault?_eq_none_iff.1 h
  by_cases hempty : clean t = []
  · have hslash : clean s = [slash] := by rw [hclean, hempty, List.nil_append]
    rw [if_pos hempty]
    simp [fault?, hslash, limit]
  · by_cases hfull : (clean t).length = limit
    · rw [if_neg hempty, if_pos hfull]
      simp [fault?, hclean, hfull]
    · rw [if_neg hempty, if_neg hfull, fault?_eq_none_iff, hclean]
      refine ⟨?_, ?_, ?_⟩
      · simp only [List.length_append, List.length_singleton]
        omega
      · rw [List.head?_append_of_ne_nil _ hempty]
        exact hhead
      · intro u hu
        rcases List.mem_append.1 hu with hu | hu
        · exact hallowed u hu
        · rw [List.mem_singleton.1 hu]
          exact isAllowed_slash

/-- The normal form of an accepted key prefix is accepted, unless closing it by a slash breaks a
rule.  It does when the cleaned prefix is empty although the trimmed one is not, and when the
cleaned prefix is as long as a prefix may be. -/
theorem fault?_normalize (t : Text) (h : fault? t = none) :
    fault? (normalize (some t)) =
      if IsClosed (trim t) then none
      else if clean t = [] then some .leadingSlash
      else if (clean t).length = limit then some .length
      else none := by
  have hclean := clean_normalize h
  by_cases hclosed : IsClosed (trim t)
  · rw [if_pos hclosed] at hclean
    rw [if_pos hclosed, fault?_eq_none_iff, hclean]
    exact fault?_eq_none_iff.1 h
  · rw [if_neg hclosed] at hclean
    rw [if_neg hclosed]
    exact fault?_of_clean_eq_append h hclean

/-- A key prefix of as many units as allowed and one of a control unit are accepted, but neither of
their normal forms is. -/
theorem fault?_normalize_at_limit :
    let longest := List.replicate limit (unit 'a')
    let unseen : Text := [0x01]
    (fault? longest = none ∧ fault? (normalize (some longest)) = some .length) ∧
      fault? unseen = none ∧ fault? (normalize (some unseen)) = some .leadingSlash := by
  intro longest unseen
  have hlongest : fault? longest = none := by decide +kernel
  have hunseen : fault? unseen = none := by decide +kernel
  refine ⟨⟨hlongest, ?_⟩, hunseen, ?_⟩
  · rw [fault?_normalize longest hlongest]
    decide +kernel
  · rw [fault?_normalize unseen hunseen]
    decide +kernel

end KeyPrefix

end BulkTransfer
