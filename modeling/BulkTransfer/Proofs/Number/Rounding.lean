import Mathlib.Algebra.Order.Field.Power
import Mathlib.Algebra.Order.Field.Rat
import Mathlib.Tactic.FieldSimp
import Mathlib.Tactic.Linarith
import Mathlib.Tactic.Positivity
import Mathlib.Tactic.Ring
import BulkTransfer.Number

/-!
# Rounding keeps the order

`nearest` keeps 53 bits of a positive rational: it takes the unit that the highest bit asks for, but
no smaller one than the least there is (`unit`), and rounds the rational to a whole number of units
(`units`).  A smaller rational has no greater unit, and with a smaller unit it rounds to no more
than `2 ^ 53` of these, where the greater one has at least `2 ^ 52` of its own; so rounding keeps
the order (`rounded_mono`).  What has been rounded is a whole number of its own units, so rounding
it again changes nothing (`rounded_rounded`).
-/

namespace BulkTransfer

namespace Number

/-! ## Powers of two -/

theorem power_pos (e : Int) : 0 < power 2 e := Nat.pow_pos Nat.two_pos

/-- The two powers for an exponent of either sign, as one power. -/
theorem power_div_power (e : Int) : (power 2 e : ℚ) / (power 2 (-e) : ℚ) = 2 ^ e := by
  rcases Int.eq_nat_or_neg e with ⟨n, rfl | rfl⟩
  · have hneg : power 2 (-(n : Int)) = 1 := by
      rw [power, Int.toNat_of_nonpos (by omega), Nat.pow_eq, pow_zero]
    have hpos : power 2 (n : Int) = 2 ^ n := rfl
    rw [hneg, hpos]
    simp
  · have hneg : power 2 (-(n : Int)) = 1 := by
      rw [power, Int.toNat_of_nonpos (by omega), Nat.pow_eq, pow_zero]
    have hpos : power 2 (-(-(n : Int))) = 2 ^ n := by rw [neg_neg]; rfl
    rw [hneg, hpos]
    simp

theorem scaled_eq (m : Nat) (e : Int) : scaled m e = m * 2 ^ e := by
  rw [scaled, Rat.mkRat_eq_div, ← power_div_power]
  push_cast
  ring

/-! ## Rounding to whole numbers -/

/-- The rounded quotient is at most a half away, and even where it is a half away. -/
theorem roundHalfEven_spec (n : Nat) {d : Nat} (hd : 0 < d) :
    (roundHalfEven n d : ℚ) - 1 / 2 ≤ n / d ∧ (n : ℚ) / d ≤ roundHalfEven n d + 1 / 2 ∧
      ((n : ℚ) / d = roundHalfEven n d - 1 / 2 ∨ (n : ℚ) / d = roundHalfEven n d + 1 / 2 →
        roundHalfEven n d % 2 = 0) := by
  have hd' : (0 : ℚ) < d := by exact_mod_cast hd
  have hquot : (n : ℚ) / d = (n / d : Nat) + (n % d : Nat) / d := by
    have hdiv : (d * (n / d : Nat) + (n % d : Nat) : ℚ) = n := by exact_mod_cast Nat.div_add_mod n d
    field_simp
    linarith
  have hnonneg : (0 : ℚ) ≤ (n % d : Nat) / d := by positivity
  have hone : ((n % d : Nat) : ℚ) / d < 1 := by
    rw [div_lt_one hd']
    exact_mod_cast Nat.mod_lt n hd
  have hbelow : 2 * (n % d) < d ↔ ((n % d : Nat) : ℚ) / d < 1 / 2 := by
    rw [div_lt_div_iff₀ hd' two_pos, one_mul, mul_comm]
    exact_mod_cast Iff.rfl
  have habove : d < 2 * (n % d) ↔ 1 / 2 < ((n % d : Nat) : ℚ) / d := by
    rw [div_lt_div_iff₀ two_pos hd', one_mul, mul_comm _ (2 : ℚ)]
    exact_mod_cast Iff.rfl
  simp only [roundHalfEven, hbelow, habove]
  rw [hquot]
  generalize ((n % d : Nat) : ℚ) / d = part at hnonneg hone
  generalize n / d = q
  split
  · next hlow => exact ⟨by linarith, by linarith, by rintro (h | h) <;> linarith⟩
  · next hlow =>
    split
    · next hhigh =>
      push_cast
      exact ⟨by linarith, by linarith, by rintro (h | h) <;> linarith⟩
    · next hhigh =>
      split
      · next heven => exact ⟨by linarith, by linarith, fun _ => heven⟩
      · next hodd =>
        push_cast
        exact ⟨by linarith, by linarith, fun _ => by omega⟩

/-- A greater quotient is rounded to no less. -/
theorem roundHalfEven_mono {n d n' d' : Nat} (hd : 0 < d) (hd' : 0 < d')
    (h : (n : ℚ) / d ≤ n' / d') : roundHalfEven n d ≤ roundHalfEven n' d' := by
  obtain ⟨hlow, -, heven⟩ := roundHalfEven_spec n hd
  obtain ⟨-, hhigh, heven'⟩ := roundHalfEven_spec n' hd'
  by_contra hlt
  have hsucc : roundHalfEven n' d' + 1 ≤ roundHalfEven n d := by omega
  have hsucc' : (roundHalfEven n' d' : ℚ) + 1 ≤ roundHalfEven n d := by exact_mod_cast hsucc
  -- Both quotients are half-way between two whole numbers, and these are not both even.
  have hn : (n : ℚ) / d = roundHalfEven n d - 1 / 2 := by linarith
  have hn' : (n' : ℚ) / d' = roundHalfEven n' d' + 1 / 2 := by linarith
  have hnext : (roundHalfEven n d : ℚ) = (roundHalfEven n' d' + 1 : Nat) := by
    push_cast
    linarith
  have hnext' : roundHalfEven n d = roundHalfEven n' d' + 1 := by exact_mod_cast hnext
  have := heven (.inl hn)
  have := heven' (.inr hn')
  omega

theorem roundHalfEven_le {n d k : Nat} (hd : 0 < d) (h : (n : ℚ) / d ≤ k) :
    roundHalfEven n d ≤ k := by
  obtain ⟨hlow, -, -⟩ := roundHalfEven_spec n hd
  have hlt : (roundHalfEven n d : ℚ) < (k + 1 : Nat) := by
    push_cast
    linarith
  have hlt' : roundHalfEven n d < k + 1 := by exact_mod_cast hlt
  omega

theorem le_roundHalfEven {n d k : Nat} (hd : 0 < d) (h : (k : ℚ) ≤ n / d) :
    k ≤ roundHalfEven n d := by
  obtain ⟨-, hhigh, -⟩ := roundHalfEven_spec n hd
  have hlt : (k : ℚ) < (roundHalfEven n d + 1 : Nat) := by
    push_cast
    linarith
  have hlt' : k < roundHalfEven n d + 1 := by exact_mod_cast hlt
  omega

/-! ## The exponent of the highest bit -/

theorem le_power_iff {n d : Nat} (hd : 0 < d) (e : Int) :
    d * power 2 e ≤ n * power 2 (-e) ↔ (2 : ℚ) ^ e ≤ n / d := by
  have hd' : (0 : ℚ) < d := by exact_mod_cast hd
  have hpos : (0 : ℚ) < power 2 (-e) := by exact_mod_cast power_pos (-e)
  rw [← power_div_power, div_le_div_iff₀ hpos hd', mul_comm (power 2 e : ℚ)]
  exact_mod_cast Iff.rfl

/-- The exponent is that of the greatest power of two that is no greater than the quotient. -/
theorem binaryExponent_spec {n d : Nat} (hn : 0 < n) (hd : 0 < d) :
    (2 : ℚ) ^ binaryExponent n d ≤ n / d ∧ (n : ℚ) / d < 2 ^ (binaryExponent n d + 1) := by
  have hn' : (0 : ℚ) < n := by exact_mod_cast hn
  have hd' : (0 : ℚ) < d := by exact_mod_cast hd
  have hnlow : (2 : ℚ) ^ (n.log2 : Int) ≤ n := by exact_mod_cast Nat.log2_self_le hn.ne'
  have hnhigh : (n : ℚ) < 2 ^ ((n.log2 : Int) + 1) := by exact_mod_cast Nat.lt_log2_self
  have hdlow : (2 : ℚ) ^ (d.log2 : Int) ≤ d := by exact_mod_cast Nat.log2_self_le hd.ne'
  have hdhigh : (d : ℚ) < 2 ^ ((d.log2 : Int) + 1) := by exact_mod_cast Nat.lt_log2_self
  -- The quotient of the highest bits is off by less than a factor of two either way.
  have hhigh : (n : ℚ) / d < 2 ^ ((n.log2 : Int) - d.log2 + 1) := by
    rw [div_lt_iff₀ hd']
    calc (n : ℚ) < 2 ^ ((n.log2 : Int) + 1) := hnhigh
      _ = 2 ^ ((n.log2 : Int) - d.log2 + 1) * 2 ^ (d.log2 : Int) := by
          rw [← zpow_add₀ two_ne_zero]
          congr 1
          ring
      _ ≤ 2 ^ ((n.log2 : Int) - d.log2 + 1) * d := by gcongr
  have hlow : (2 : ℚ) ^ ((n.log2 : Int) - d.log2 - 1) ≤ n / d := by
    rw [le_div_iff₀ hd']
    calc (2 : ℚ) ^ ((n.log2 : Int) - d.log2 - 1) * d
        ≤ 2 ^ ((n.log2 : Int) - d.log2 - 1) * 2 ^ ((d.log2 : Int) + 1) := by gcongr
      _ = 2 ^ (n.log2 : Int) := by
          rw [← zpow_add₀ two_ne_zero]
          congr 1
          ring
      _ ≤ n := hnlow
  rw [binaryExponent]
  simp only [le_power_iff hd]
  split
  · next h => exact ⟨h, hhigh⟩
  · next h =>
    rw [sub_add_cancel]
    exact ⟨hlow, not_le.1 h⟩

/-! ## Rounding positive rationals -/

section

variable {q r : ℚ}

theorem natAbs_div_den (hq : 0 < q) : (q.num.natAbs : ℚ) / q.den = q := by
  have hnum : 0 < q.num := Rat.num_pos.2 hq
  have hcast : (q.num.natAbs : ℚ) = q.num := by
    rw [← Int.cast_natCast, Int.natAbs_of_nonneg hnum.le]
  rw [hcast, Rat.num_div_den]

/-- The exponent of the unit that a rational is rounded to. -/
def unit (q : ℚ) : Int := unitExponent q.num.natAbs q.den

/-- The number of units that a rational is rounded to. -/
def units (q : ℚ) : Nat := (significand q.num.natAbs q.den).1

/-- The rounded value, for all that the greatest floating point value says. -/
def magnitude (q : ℚ) : ℚ := units q * 2 ^ unit q

theorem least_le_unit (q : ℚ) : -1074 ≤ unit q := le_max_right _ _

theorem exists_binaryExponent (hq : 0 < q) :
    ∃ e : Int, (2 : ℚ) ^ e ≤ q ∧ q < 2 ^ (e + 1) ∧ unit q = max (e - 52) (-1074) := by
  have hspec := binaryExponent_spec (Int.natAbs_pos.2 (Rat.num_pos.2 hq).ne') q.den_pos
  rw [natAbs_div_den hq] at hspec
  exact ⟨_, hspec.1, hspec.2, rfl⟩

/-- The significand is the number of units, rounded to a whole one. -/
theorem quotient_units (hq : 0 < q) :
    ((q.num.natAbs * power 2 (-unit q) : Nat) : ℚ) / (q.den * power 2 (unit q) : Nat) =
      q / 2 ^ unit q := by
  have hbelow : (power 2 (-unit q) : ℚ) ≠ 0 := by exact_mod_cast (power_pos (-unit q)).ne'
  have habove : (power 2 (unit q) : ℚ) ≠ 0 := by exact_mod_cast (power_pos (unit q)).ne'
  have hden : (q.den : ℚ) ≠ 0 := by exact_mod_cast q.den_nz
  calc ((q.num.natAbs * power 2 (-unit q) : Nat) : ℚ) / (q.den * power 2 (unit q) : Nat)
      = (q.num.natAbs / q.den) / (power 2 (unit q) / power 2 (-unit q)) := by
        push_cast
        field_simp
    _ = q / 2 ^ unit q := by rw [natAbs_div_den hq, power_div_power]

theorem den_mul_power_pos (q : ℚ) : 0 < q.den * power 2 (unit q) :=
  Nat.mul_pos q.den_pos (power_pos _)

theorem units_eq (q : ℚ) :
    units q = roundHalfEven (q.num.natAbs * power 2 (-unit q)) (q.den * power 2 (unit q)) := rfl

theorem units_le {k : Nat} (hq : 0 < q) (h : q ≤ k * 2 ^ unit q) : units q ≤ k := by
  rw [units_eq]
  apply roundHalfEven_le (den_mul_power_pos q)
  rw [quotient_units hq, div_le_iff₀ (by positivity)]
  exact h

theorem le_units {k : Nat} (hq : 0 < q) (h : k * 2 ^ unit q ≤ q) : k ≤ units q := by
  rw [units_eq]
  apply le_roundHalfEven (den_mul_power_pos q)
  rw [quotient_units hq, le_div_iff₀ (by positivity)]
  exact h

theorem units_mono (hq : 0 < q) (h : q ≤ r) (hunit : unit q = unit r) : units q ≤ units r := by
  rw [units_eq, units_eq]
  apply roundHalfEven_mono (den_mul_power_pos q) (den_mul_power_pos r)
  have hpos : (0 : ℚ) < 2 ^ unit r := by positivity
  rw [quotient_units hq, quotient_units (hq.trans_le h), hunit]
  exact div_le_div_of_nonneg_right h hpos.le

/-- A rational is at most `2 ^ 53` of its units. -/
theorem le_units_bound (hq : 0 < q) : q ≤ (2 ^ 53 : Nat) * 2 ^ unit q := by
  obtain ⟨e, -, hlt, hunit⟩ := exists_binaryExponent hq
  calc q ≤ 2 ^ (e + 1) := hlt.le
    _ ≤ 2 ^ (53 + unit q) := zpow_le_zpow_right₀ one_le_two (by omega)
    _ = (2 ^ 53 : Nat) * 2 ^ unit q := by
        rw [zpow_add₀ two_ne_zero]
        norm_num

/-- A rational whose unit is not the least one is at least `2 ^ 52` of its units. -/
theorem units_bound_le (hq : 0 < q) (h : -1074 < unit q) : (2 ^ 52 : Nat) * 2 ^ unit q ≤ q := by
  obtain ⟨e, hle, -, hunit⟩ := exists_binaryExponent hq
  calc ((2 ^ 52 : Nat) : ℚ) * 2 ^ unit q = 2 ^ (52 + unit q) := by
        rw [zpow_add₀ two_ne_zero]
        norm_num
    _ ≤ 2 ^ e := zpow_le_zpow_right₀ one_le_two (by omega)
    _ ≤ q := hle

theorem unit_mono (hq : 0 < q) (h : q ≤ r) : unit q ≤ unit r := by
  obtain ⟨e, hle, -, hunit⟩ := exists_binaryExponent hq
  obtain ⟨f, -, hlt, hunit'⟩ := exists_binaryExponent (hq.trans_le h)
  have hef : e < f + 1 :=
    (zpow_lt_zpow_iff_right₀ one_lt_two).1 ((hle.trans h).trans_lt hlt)
  omega

/-- What is rounded is at most `2 ^ 52` of any greater unit. -/
theorem magnitude_le_of_unit_lt {e : Int} (hq : 0 < q) (h : unit q < e) :
    magnitude q ≤ (2 ^ 52 : Nat) * 2 ^ e := by
  have hfew : (units q : ℚ) ≤ (2 ^ 53 : Nat) := by
    exact_mod_cast units_le hq (le_units_bound hq)
  calc magnitude q ≤ (2 ^ 53 : Nat) * 2 ^ unit q := by rw [magnitude]; gcongr
    _ = (2 ^ 52 : Nat) * 2 ^ (unit q + 1) := by
        rw [zpow_add₀ two_ne_zero]
        norm_num
        ring
    _ ≤ (2 ^ 52 : Nat) * 2 ^ e := by
        gcongr
        · exact one_le_two
        · omega

theorem magnitude_mono (hq : 0 < q) (h : q ≤ r) : magnitude q ≤ magnitude r := by
  rcases (unit_mono hq h).eq_or_lt with hunit | hunit
  · have hunits : (units q : ℚ) ≤ units r := by exact_mod_cast units_mono hq h hunit
    rw [magnitude, magnitude, hunit]
    gcongr
  · have hr := hq.trans_le h
    have hmany : ((2 ^ 52 : Nat) : ℚ) ≤ units r := by
      exact_mod_cast le_units hr (units_bound_le hr ((least_le_unit q).trans_lt hunit))
    calc magnitude q ≤ (2 ^ 52 : Nat) * 2 ^ unit r := magnitude_le_of_unit_lt hq hunit
      _ ≤ magnitude r := by rw [magnitude]; gcongr

/-- A whole number of its units is rounded to itself. -/
theorem magnitude_eq_self {k : Nat} (hq : 0 < q) (h : q = k * 2 ^ unit q) : magnitude q = q := by
  have hunits : units q = k := le_antisymm (units_le hq h.le) (le_units hq h.ge)
  rw [magnitude, hunits]
  exact h.symm

/-- A power of two, as a whole number of smaller ones. -/
theorem zpow_eq_natCast_mul {e f : Int} (h : f ≤ e) :
    (2 : ℚ) ^ e = (2 ^ (e - f).toNat : Nat) * 2 ^ f := by
  have hsub : e = ((e - f).toNat : Int) + f := by omega
  conv_lhs => rw [hsub, zpow_add₀ two_ne_zero]
  push_cast
  rfl

/-- What has been rounded is a whole number of its own units. -/
theorem magnitude_magnitude (hq : 0 < q) (hpos : 0 < magnitude q) :
    magnitude (magnitude q) = magnitude q := by
  rcases le_or_gt (unit (magnitude q)) (unit q) with hunit | hunit
  · apply magnitude_eq_self (k := units q * 2 ^ (unit q - unit (magnitude q)).toNat) hpos
    conv_lhs => rw [magnitude, zpow_eq_natCast_mul hunit]
    push_cast
    ring
  · -- Only a value of `2 ^ 53` units takes the next unit, and of that it has `2 ^ 52`.
    have hleast : -1074 < unit (magnitude q) := (least_le_unit q).trans_lt hunit
    apply magnitude_eq_self (k := 2 ^ 52) hpos
    exact (magnitude_le_of_unit_lt hq hunit).antisymm (units_bound_le hpos hleast)

theorem magnitude_nonneg (q : ℚ) : 0 ≤ magnitude q := by
  rw [magnitude]
  positivity

theorem nearest_of_pos (hq : 0 < q) :
    nearest q =
      if (power 2 1024 : ℚ) ≤ magnitude q then .infinite false else .finite (magnitude q) := by
  have hnum : 0 < q.num := Rat.num_pos.2 hq
  have hvalue : scaled (significand q.num.natAbs q.den).1 (significand q.num.natAbs q.den).2 =
      magnitude q := scaled_eq _ _
  simp only [nearest, hnum.ne', if_false, hvalue, not_lt.2 hnum.le, decide_false]

/-- A rational below zero is rounded as its opposite is. -/
theorem nearest_of_neg (hq : q < 0) :
    nearest q =
      if (power 2 1024 : ℚ) ≤ magnitude (-q) then .infinite true
      else .finite (-magnitude (-q)) := by
  have hnum : q.num < 0 := Rat.num_neg.2 hq
  have hparts : ((-q).num.natAbs, (-q).den) = (q.num.natAbs, q.den) := by simp
  obtain ⟨hnat, hden⟩ := Prod.mk.inj hparts
  have hvalue : scaled (significand q.num.natAbs q.den).1 (significand q.num.natAbs q.den).2 =
      magnitude (-q) := by
    rw [← hnat, ← hden]
    exact scaled_eq _ _
  simp only [nearest, hnum.ne, if_false, hvalue, hnum, if_true, decide_true]

theorem rounded_of_pos (hq : 0 < q) :
    rounded q = if (power 2 1024 : ℚ) ≤ magnitude q then q else magnitude q := by
  unfold rounded
  rw [nearest_of_pos hq]
  by_cases hbig : (power 2 1024 : ℚ) ≤ magnitude q
  · simp only [if_pos hbig]
  · simp only [if_neg hbig]

theorem rounded_zero : rounded 0 = 0 := rfl

theorem rounded_nonneg (hq : 0 ≤ q) : 0 ≤ rounded q := by
  rcases hq.eq_or_lt with rfl | hpos
  · exact rounded_zero.ge
  · rw [rounded_of_pos hpos]
    split
    · exact hq
    · exact magnitude_nonneg q

/-- Rounding keeps the order. -/
theorem rounded_mono (hq : 0 ≤ q) (h : q ≤ r) : rounded q ≤ rounded r := by
  rcases hq.eq_or_lt with rfl | hpos
  · rw [rounded_zero]
    exact rounded_nonneg h
  have hr := hpos.trans_le h
  have hmono := magnitude_mono hpos h
  rw [rounded_of_pos hpos, rounded_of_pos hr]
  split
  · next hq' => rwa [if_pos (hq'.trans hmono)]
  · next hq' =>
    split
    · next hr' =>
      -- A rational below the value that a smaller one is rounded to would be rounded to no more.
      by_contra hlt
      have hbelow := magnitude_mono hr (not_le.1 hlt).le
      rw [magnitude_magnitude hpos (hr.trans (not_le.1 hlt))] at hbelow
      exact hq' (hr'.trans hbelow)
    · exact hmono

/-- What has been rounded is rounded to itself. -/
theorem rounded_rounded (hq : 0 ≤ q) : rounded (rounded q) = rounded q := by
  rcases hq.eq_or_lt with rfl | hpos
  · rfl
  rw [rounded_of_pos hpos]
  split
  · next hbig => rw [rounded_of_pos hpos, if_pos hbig]
  · next hsmall =>
    rcases (magnitude_nonneg q).eq_or_lt with hzero | hvalue
    · rw [← hzero, rounded_zero]
    · rw [rounded_of_pos hvalue, magnitude_magnitude hpos hvalue, ite_self]

end

end Number

end BulkTransfer
