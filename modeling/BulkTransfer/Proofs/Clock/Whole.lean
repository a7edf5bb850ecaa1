import BulkTransfer.Proofs.Dispatch.Instant
import Mathlib.Algebra.Order.BigOperators.Group.List
import Mathlib.Algebra.Order.Ring.Rat

/-!
# Whole milliseconds

A whole number below `2 ^ 53` is a floating point value, so rounding leaves it as it is
(`rounded_natCast`).  The machine's clock therefore shows sums of whole delays as they are, as long
as all of them together stay below that bound (`Clock.showsSums_binary`).
-/

namespace BulkTransfer

namespace Number

theorem power_natCast (base k : Nat) : power base (k : Int) = base ^ k := rfl

theorem power_of_nonpos (base : Nat) {e : Int} (h : e ≤ 0) : power base e = 1 := by
  rw [power, Int.toNat_of_nonpos h]
  rfl

theorem pow_lt_power {a b : Nat} (h : a < b) : 2 ^ a < power 2 b :=
  Nat.pow_lt_pow_right Nat.one_lt_two h

theorem binaryExponent_one {n : Nat} (h : n ≠ 0) : binaryExponent n 1 = n.log2 := by
  have hlog : (Nat.log2 1 : Int) = 0 := rfl
  have hle : 2 ^ n.log2 ≤ n := Nat.log2_self_le h
  rw [binaryExponent]
  simp only [hlog, Int.sub_zero]
  rw [if_pos]
  rw [power_natCast, power_of_nonpos _ (by omega), Nat.one_mul, Nat.mul_one]
  exact hle

theorem roundHalfEven_one (n : Nat) : roundHalfEven n 1 = n := by
  simp [roundHalfEven, Nat.mod_one]

theorem significand_one {n : Nat} (h : n ≠ 0) (hlt : n < 2 ^ 53) :
    significand n 1 = (n * 2 ^ (52 - n.log2), ((n.log2 : Int) - 52)) := by
  have hlog : n.log2 < 53 := (Nat.log2_lt h).2 hlt
  have hunit : unitExponent n 1 = (n.log2 : Int) - 52 := by
    rw [unitExponent, binaryExponent_one h]
    omega
  have hneg : -((n.log2 : Int) - 52) = ((52 - n.log2 : Nat) : Int) := by omega
  rw [significand]
  simp only [hunit]
  rw [hneg, power_natCast, power_of_nonpos _ (by omega), Nat.one_mul, roundHalfEven_one]

theorem scaled_significand_one {n : Nat} (hlt : n.log2 < 53) :
    scaled (n * 2 ^ (52 - n.log2)) ((n.log2 : Int) - 52) = n := by
  have hneg : -((n.log2 : Int) - 52) = ((52 - n.log2 : Nat) : Int) := by omega
  have hpos : (2 : Nat) ^ (52 - n.log2) ≠ 0 := Nat.ne_of_gt (Nat.two_pow_pos _)
  rw [scaled, hneg, power_natCast, power_of_nonpos _ (by omega)]
  calc mkRat (((n * 2 ^ (52 - n.log2) : Nat) : Int) * ((1 : Nat) : Int)) (2 ^ (52 - n.log2))
      = mkRat ((n : Int) * ((2 ^ (52 - n.log2) : Nat) : Int)) (1 * 2 ^ (52 - n.log2)) := by simp
    _ = mkRat (n : Int) 1 := Rat.mkRat_mul_right hpos
    _ = n := Rat.mkRat_self n

/-- A whole number below `2 ^ 53` is a floating point value. -/
theorem nearest_natCast {n : Nat} (h : n < 2 ^ 53) : nearest (n : Rat) = .finite n := by
  by_cases hzero : n = 0
  · subst hzero
    rfl
  · have hlt : n.log2 < 53 := (Nat.log2_lt hzero).2 h
    have hsmall : ¬ ((power 2 1024 : Nat) : Rat) ≤ n := by
      rw [Rat.natCast_le_natCast]
      exact Nat.not_le.2 (Nat.lt_trans h (pow_lt_power (b := 1024) (by omega)))
    have hnum : ((n : Rat).num.natAbs, (n : Rat).den) = (n, 1) := rfl
    have hsign : ¬ (n : Rat).num < 0 := Int.not_lt.2 (Int.natCast_nonneg n)
    have hne : ¬ (n : Rat).num = 0 := fun e => hzero (Int.ofNat.inj e)
    rw [nearest, if_neg hne]
    obtain ⟨hnat, hden⟩ := Prod.mk.inj hnum
    simp only [hnat, hden, significand_one hzero h, scaled_significand_one hlt]
    rw [if_neg hsmall, if_neg hsign]

theorem rounded_natCast {n : Nat} (h : n < 2 ^ 53) : rounded (n : Rat) = n := by
  rw [rounded, nearest_natCast h]

end Number

/-! ## Sums of whole delays -/

namespace Clock

theorem exists_natCast_sum {delays : List Time} (h : ∀ d ∈ delays, ∃ n : Nat, d = n) :
    ∃ n : Nat, delays.sum = n := by
  induction delays with
  | nil => exact ⟨0, rfl⟩
  | cons d rest ih =>
    obtain ⟨m, hm⟩ := h d List.mem_cons_self
    obtain ⟨n, hn⟩ := ih fun e he => h e (List.mem_cons_of_mem _ he)
    exact ⟨m + n, by rw [List.sum_cons, hm, hn, Rat.natCast_add]⟩

theorem sum_le_of_subperm {part delays : List Time} (h : part.Subperm delays)
    (hpos : ∀ d ∈ delays, 0 ≤ d) : part.sum ≤ delays.sum := by
  obtain ⟨same, hperm, hsub⟩ := h
  rw [← hperm.sum_eq]
  exact hsub.sum_le_sum hpos

/-- The machine's clock shows sums of whole delays as they are while the whole sum is below
`2 ^ 53`. -/
theorem showsSums_binary {delays : List Time} (h : ∀ d ∈ delays, ∃ n : Nat, d = n)
    (hsum : delays.sum < 2 ^ 53) : binary.ShowsSums delays := by
  intro part hpart
  obtain ⟨n, hn⟩ := exists_natCast_sum fun d hd => h d (hpart.subset hd)
  have hpos : ∀ d ∈ delays, 0 ≤ d := by
    intro d hd
    obtain ⟨m, rfl⟩ := h d hd
    exact Rat.natCast_nonneg
  have hlt : (n : Rat) < 2 ^ 53 := hn ▸ lt_of_le_of_lt (sum_le_of_subperm hpart hpos) hsum
  rw [hn]
  exact Number.rounded_natCast (by exact_mod_cast hlt)

end Clock

end BulkTransfer
