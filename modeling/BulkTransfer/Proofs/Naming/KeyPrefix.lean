import BulkTransfer.Naming.KeyPrefix
import BulkTransfer.Proofs.Naming.Clean

/-!
# Accepted key prefixes

A key prefix is checked in its cleaned form, but it is put in front of object names as it was given.
So the normal form of an accepted prefix never begins with a slash, and its units are allowed ones
but for the control units that cleaning would have removed (`normalize_of_accepted`).
-/

namespace BulkTransfer

namespace KeyPrefix

open Text

/-! ## Allowed units -/

theorem lt_of_between {lo hi : Char} {u : UInt16} (hlo : 0x20 < unit lo) (hhi : unit hi < 0x7F)
    (h : between lo hi u = true) : 0x20 < u ∧ u < 0x7F := by
  rw [between, Bool.and_eq_true, decide_eq_true_eq, decide_eq_true_eq] at h
  exact ⟨UInt16.lt_of_lt_of_le hlo h.1, UInt16.lt_of_le_of_lt h.2 hhi⟩

/-- Allowed units are visible ones of ASCII. -/
theorem lt_of_isAllowed {u : UInt16} (h : isAllowed u = true) : 0x20 < u ∧ u < 0x7F := by
  have hsigns : signs.all (fun u => 0x20 < u && u < 0x7F) = true := by decide +kernel
  rw [isAllowed, Bool.or_eq_true, Bool.or_eq_true, Bool.or_eq_true] at h
  rcases h with ((hlower | hupper) | hdigit) | hsign
  · exact lt_of_between (by decide) (by decide) hlower
  · exact lt_of_between (by decide) (by decide) hupper
  · exact lt_of_between (by decide) (by decide) hdigit
  · have hbounds := List.all_eq_true.1 hsigns u (List.contains_iff_mem.1 hsign)
    rwa [Bool.and_eq_true, decide_eq_true_eq, decide_eq_true_eq] at hbounds

theorem isControl_of_isAllowed {u : UInt16} (h : isAllowed u = true) : isControl u = false := by
  obtain ⟨hlow, hhigh⟩ := lt_of_isAllowed h
  grind [isControl]

theorem isAllowed_slash : isAllowed slash = true := by decide +kernel

theorem not_isAllowed_space : isAllowed space = false := by decide +kernel

/-! ## Normal forms -/

theorem dropSlash_eq_self {t : Text} (h : t.head? ≠ some slash) : dropSlash t = t := by
  cases t with
  | nil => rfl
  | cons u rest => rw [dropSlash, if_neg fun hu => h (congrArg some hu)]

/-- Closing a text adds at most a slash at its end. -/
theorem closeSlash_eq (t : Text) : closeSlash t = t ∨ (t ≠ [] ∧ closeSlash t = t ++ [slash]) := by
  rw [closeSlash]
  split
  · next h => exact .inl (List.getLast?_eq_none_iff.1 h).symm
  · next u h =>
    split
    · exact .inl rfl
    · refine .inr ⟨?_, rfl⟩
      rintro rfl
      cases h

theorem head?_closeSlash (t : Text) : (closeSlash t).head? = t.head? := by
  rcases closeSlash_eq t with h | ⟨hne, h⟩
  · rw [h]
  · obtain ⟨u, rest, rfl⟩ := List.exists_cons_of_ne_nil hne
    rw [h]
    rfl

theorem mem_closeSlash {t : Text} {u : UInt16} (h : u ∈ closeSlash t) : u ∈ t ∨ u = slash := by
  rcases closeSlash_eq t with ht | ⟨-, ht⟩
  · rw [ht] at h
    exact .inl h
  · rw [ht] at h
    exact (List.mem_append.1 h).imp id List.mem_singleton.1

theorem subset_closeSlash (t : Text) : t ⊆ closeSlash t := by
  rcases closeSlash_eq t with h | ⟨-, h⟩
  · rw [h]
    exact List.Subset.refl t
  · rw [h]
    exact List.subset_append_left t [slash]

/-! ## Accepted prefixes -/

/-- A key prefix is accepted when its cleaned form is short enough, does not begin with a slash and
has allowed units only. -/
theorem fault?_eq_none_iff {t : Text} :
    fault? t = none ↔ (clean t).length ≤ limit ∧ (clean t).head? ≠ some slash ∧
      ∀ u ∈ clean t, isAllowed u = true := by
  simp only [fault?]
  constructor
  · intro h
    split at h
    · next hempty => simp [List.isEmpty_iff.1 hempty]
    split at h
    · cases h
    next hlength =>
    split at h
    · cases h
    next hhead =>
    split at h
    · cases h
    next hall => exact ⟨Nat.not_lt.1 hlength, by simpa using hhead, by simpa using hall⟩
  · rintro ⟨hlength, hhead, hall⟩
    have hslash : ¬ ((clean t).head? == some slash) = true := by simpa using hhead
    have hunits : ¬ (!(clean t).all isAllowed) = true := by simpa using hall
    rw [if_neg (Nat.not_lt.2 hlength), if_neg hslash, if_neg hunits, ite_self]

/-- The trimmed text of an accepted key prefix is its cleaned form with control units in between. -/
theorem clean_of_accepted {t : Text} (h : fault? t = none) :
    clean t = (trim t).filter fun u => !isControl u := by
  obtain ⟨hlength, -, hallowed⟩ := fault?_eq_none_iff.1 h
  refine clean_eq_filter (Nat.lt_of_le_of_lt hlength (by decide)) fun hspace => ?_
  have hspace := hallowed space hspace
  rw [not_isAllowed_space] at hspace
  cases hspace

theorem isAllowed_of_mem_trim {t : Text} (h : fault? t = none) {u : UInt16} (hu : u ∈ trim t)
    (hcontrol : isControl u = false) : isAllowed u = true := by
  refine (fault?_eq_none_iff.1 h).2.2 u ?_
  rw [clean_of_accepted h, List.mem_filter, hcontrol]
  exact ⟨hu, rfl⟩

theorem head?_trim_of_accepted {t : Text} (h : fault? t = none) : (trim t).head? ≠ some slash := by
  intro hhead
  obtain ⟨rest, hrest⟩ := List.head?_eq_some_iff.1 hhead
  have hslash : isControl slash = false := by decide
  refine (fault?_eq_none_iff.1 h).2.1 ?_
  rw [clean_of_accepted h, hrest, List.filter_cons_of_pos (by rw [hslash]; rfl)]
  rfl

theorem normalize_eq_of_accepted {t : Text} (h : fault? t = none) :
    normalize (some t) = closeSlash (trim t) := by
  rw [normalize, dropSlash_eq_self (head?_trim_of_accepted h)]

/-- The normal form of an accepted key prefix does not begin with a slash, and the only units of it
that are not allowed are control units.  So all of its units are allowed exactly when the prefix,
but for blanks at its ends, holds no control unit. -/
theorem normalize_of_accepted (t : Text) (h : fault? t = none) :
    (normalize (some t)).head? ≠ some slash ∧
      (∀ u ∈ normalize (some t), isAllowed u = !isControl u) ∧
      ((∀ u ∈ normalize (some t), isAllowed u = true) ↔ ∀ u ∈ trim t, isControl u = false) := by
  have hunits : ∀ u ∈ closeSlash (trim t), isAllowed u = !isControl u := by
    intro u hu
    cases hcontrol : isControl u with
    | true =>
      exact Bool.eq_false_iff.2 fun hallowed =>
        absurd (isControl_of_isAllowed hallowed) (by simp [hcontrol])
    | false =>
      rcases mem_closeSlash hu with hu | rfl
      · exact isAllowed_of_mem_trim h hu hcontrol
      · exact isAllowed_slash
  rw [normalize_eq_of_accepted h]
  refine ⟨?_, hunits, fun hall u hu => ?_, fun hcontrol u hu => ?_⟩
  · rw [head?_closeSlash]
    exact head?_trim_of_accepted h
  · exact isControl_of_isAllowed (hall u (subset_closeSlash _ hu))
  · rcases mem_closeSlash hu with hu | rfl
    · exact isAllowed_of_mem_trim h hu (hcontrol u hu)
    · exact isAllowed_slash

end KeyPrefix

end BulkTransfer
