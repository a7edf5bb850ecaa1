import BulkTransfer.Proofs.Clock.Whole
import BulkTransfer.Proofs.Number.Rounding

/-!
# Comparing rounded whole numbers

A whole number of any size may be rounded before it is compared with a small one: rounding keeps
the order and leaves small whole numbers as they are (`isBelow_ofInt_iff`, `isAbove_ofInt_iff`).  A
whole number that is no greater than one with a finite value has a finite value too
(`isFinite_ofInt_mono`).
-/

namespace BulkTransfer

namespace Number

variable {k m n : Nat} {v : Int}

/-! ## Rounded whole numbers -/

theorem ofInt_natCast_eq (n : Nat) : ofInt (n : Int) = nearest (n : ℚ) := by
  unfold ofInt
  rw [Int.cast_natCast]

theorem ofInt_natCast (h : n < 2 ^ 53) : ofInt (n : Int) = .finite n := by
  rw [ofInt_natCast_eq, nearest_natCast h]

theorem magnitude_natCast (hpos : 0 < n) (h : n < 2 ^ 53) : magnitude (n : ℚ) = n := by
  have hnearest := nearest_natCast h
  rw [nearest_of_pos (by exact_mod_cast hpos)] at hnearest
  split at hnearest
  · cases hnearest
  · exact Number.finite.inj hnearest

/-- What a greater number is rounded to is no less than a small one. -/
theorem natCast_le_magnitude (hpos : 0 < n) (h : n < 2 ^ 53) (hle : n ≤ k) :
    (n : ℚ) ≤ magnitude k := by
  have hpos' : (0 : ℚ) < n := by exact_mod_cast hpos
  have hle' : (n : ℚ) ≤ k := by exact_mod_cast hle
  calc (n : ℚ) = magnitude n := (magnitude_natCast hpos h).symm
    _ ≤ magnitude k := magnitude_mono hpos' hle'

/-- A positive whole number is rounded to a positive infinity or to its magnitude. -/
theorem ofInt_of_pos (hpos : 0 < k) :
    ofInt (k : Int) = .infinite false ∨ ofInt (k : Int) = .finite (magnitude k) := by
  rw [ofInt_natCast_eq, nearest_of_pos (by exact_mod_cast hpos)]
  split
  · exact .inl rfl
  · exact .inr rfl

/-- A whole number that is not positive is rounded to a negative infinity or to none above zero. -/
theorem ofInt_of_nonpos (h : v ≤ 0) :
    ofInt v = .infinite true ∨ ∃ q ≤ 0, ofInt v = .finite q := by
  rcases h.lt_or_eq with hneg | rfl
  · unfold ofInt
    rw [nearest_of_neg (by exact_mod_cast hneg)]
    split
    · exact .inl rfl
    · exact .inr ⟨_, neg_nonpos.2 (magnitude_nonneg _), rfl⟩
  · exact .inr ⟨0, le_rfl, rfl⟩

/-! ## Comparing with a small number -/

theorem isBelow_ofInt_iff (hpos : 0 < n) (h : n < 2 ^ 53) :
    (ofInt v).isBelow n = true ↔ v < n := by
  rcases le_or_gt v 0 with hv | hv
  · have hlt : v < n := by omega
    refine iff_of_true ?_ hlt
    rcases ofInt_of_nonpos hv with hround | ⟨q, hq, hround⟩
    · rw [hround]
      rfl
    · rw [hround]
      have hn : (0 : ℚ) < n := by exact_mod_cast hpos
      exact decide_eq_true (lt_of_le_of_lt hq hn)
  · obtain ⟨k, rfl⟩ := Int.eq_ofNat_of_zero_le hv.le
    rw [Int.ofNat_lt]
    rcases Nat.lt_or_ge k n with hlt | hge
    · rw [ofInt_natCast (hlt.trans h)]
      exact iff_of_true (decide_eq_true (by exact_mod_cast hlt)) hlt
    · refine iff_of_false (Bool.eq_false_iff.1 ?_) (Nat.not_lt.2 hge)
      have hle := natCast_le_magnitude hpos h hge
      rcases ofInt_of_pos (by omega : 0 < k) with hround | hround
      · rw [hround]
        rfl
      · rw [hround]
        exact decide_eq_false (not_lt.2 hle)

theorem isAbove_ofInt_iff (h : n + 1 < 2 ^ 53) : (ofInt v).isAbove n = true ↔ (n : Int) < v := by
  rcases le_or_gt v 0 with hv | hv
  · refine iff_of_false (Bool.eq_false_iff.1 ?_) (by omega)
    rcases ofInt_of_nonpos hv with hround | ⟨q, hq, hround⟩
    · rw [hround]
      rfl
    · rw [hround]
      have hn : (0 : ℚ) ≤ n := n.cast_nonneg
      exact decide_eq_false (not_lt.2 (hq.trans hn))
  · obtain ⟨k, rfl⟩ := Int.eq_ofNat_of_zero_le hv.le
    rw [Int.ofNat_lt]
    rcases Nat.lt_or_ge n k with hlt | hge
    · refine iff_of_true ?_ hlt
      have hle := natCast_le_magnitude (Nat.succ_pos n) h hlt
      rcases ofInt_of_pos (by omega : 0 < k) with hround | hround
      · rw [hround]
        rfl
      · rw [hround]
        refine decide_eq_true (lt_of_lt_of_le ?_ hle)
        exact_mod_cast Nat.lt_succ_self n
    · rw [ofInt_natCast (by omega)]
      refine iff_of_false (Bool.eq_false_iff.1 ?_) (Nat.not_lt.2 hge)
      exact decide_eq_false (not_lt.2 (by exact_mod_cast hge))

/-! ## Finite values -/

theorem isFinite_ofInt_iff (hpos : 0 < n) :
    (ofInt (n : Int)).isFinite = true ↔ magnitude n < (power 2 1024 : ℚ) := by
  rw [ofInt_natCast_eq, nearest_of_pos (by exact_mod_cast hpos)]
  split
  · next hbig => exact iff_of_false Bool.false_ne_true (not_lt.2 hbig)
  · next hsmall => exact iff_of_true rfl (not_le.1 hsmall)

theorem isFinite_ofInt_mono (hle : m ≤ n) (h : (ofInt (n : Int)).isFinite = true) :
    (ofInt (m : Int)).isFinite = true := by
  rcases Nat.eq_zero_or_pos m with rfl | hpos
  · rfl
  · rw [isFinite_ofInt_iff (hpos.trans_le hle)] at h
    rw [isFinite_ofInt_iff hpos]
    refine lt_of_le_of_lt (magnitude_mono ?_ ?_) h
    · exact_mod_cast hpos
    · exact_mod_cast hle

/-- A whole number is rounded to a whole number. -/
theorem exists_magnitude_eq_natCast (hpos : 0 < k) : ∃ n : Nat, magnitude (k : ℚ) = n := by
  rcases Nat.lt_or_ge k (2 ^ 53) with hsmall | hbig
  · exact ⟨k, magnitude_natCast hpos hsmall⟩
  · -- The unit of so great a number is no fraction.
    obtain ⟨e, -, hhigh, hunit⟩ := exists_binaryExponent (q := (k : ℚ)) (by exact_mod_cast hpos)
    have hpow : (2 : ℚ) ^ (53 : Int) < 2 ^ (e + 1) := by
      refine lt_of_le_of_lt ?_ hhigh
      exact_mod_cast hbig
    have hlt : (53 : Int) < e + 1 := (zpow_lt_zpow_iff_right₀ one_lt_two).1 hpow
    obtain ⟨j, hj⟩ := Int.eq_ofNat_of_zero_le (by omega : 0 ≤ unit (k : ℚ))
    refine ⟨units (k : ℚ) * 2 ^ j, ?_⟩
    rw [magnitude, hj, zpow_natCast]
    push_cast
    rfl

/-- A positive whole number with a finite value is rounded to a positive whole number. -/
theorem exists_ofInt_eq_natCast (hpos : 0 < k) (h : (ofInt (k : Int)).isFinite = true) :
    ∃ n : Nat, 1 ≤ n ∧ ofInt (k : Int) = .finite n := by
  obtain ⟨n, hn⟩ := exists_magnitude_eq_natCast hpos
  refine ⟨n, ?_, ?_⟩
  · have hone : ((1 : Nat) : ℚ) ≤ magnitude k := natCast_le_magnitude one_pos (by norm_num) hpos
    rw [hn] at hone
    exact_mod_cast hone
  · rcases ofInt_of_pos hpos with hround | hround
    · rw [hround] at h
      cases h
    · rw [hround, hn]

end Number

end BulkTransfer
