import BulkTransfer.Proofs.Concurrency.Leading
import BulkTransfer.Proofs.Number.Comparing

/-!
# The default concurrency

The environment's number is read as a floating point value and compared as such, but what comes out
is what its exact value says: the number itself from 1 to 64, and the nearer end of that range
otherwise (`ofHost_of_startsWith`).  Without such a number the default is half of the processors.
-/

namespace BulkTransfer

/-- A variable has a value when it is set to a text that is not empty. -/
theorem Environment.value?_eq_some_iff {env : Environment} {name t : Text} :
    env.value? name = some t ↔ env.lookup name = some t ∧ t ≠ [] := by
  unfold value?
  cases env.lookup name with
  | none => simp
  | some found =>
    cases found with
    | nil => simp
    | cons u rest => simp; rintro rfl; exact List.cons_ne_nil _ _

namespace Concurrency

variable {host : Host} {t : Text} {v : Int}

/-! ## Reading the number -/

theorem parsed_of_startsWith (h : StartsWith t v) : parsed t = Number.ofInt v := by
  unfold parsed
  rw [leading?_eq_some_iff.2 h]

theorem parsed_of_not_startsWith (h : ¬ ∃ v, StartsWith t v) : parsed t = .nan := by
  unfold parsed
  cases hleading : leading? t with
  | none => rfl
  | some v => exact absurd ⟨v, leading?_eq_some_iff.1 hleading⟩ h

theorem ofInt_ne_nan (v : Int) : Number.ofInt v ≠ .nan := by
  rcases le_or_gt v 0 with hv | hv
  · rcases Number.ofInt_of_nonpos hv with h | ⟨q, -, h⟩
    all_goals
      rw [h]
      exact nofun
  · obtain ⟨k, rfl⟩ := Int.eq_ofNat_of_zero_le hv.le
    rcases Number.ofInt_of_pos (by omega : 0 < k) with h | h
    all_goals
      rw [h]
      exact nofun

/-- A whole number from 1 to 64 is the count that its floating point value stands for. -/
theorem count_ofInt (hlow : 1 ≤ v) (hhigh : v ≤ 64) : ((Number.ofInt v).count : Int) = v := by
  obtain ⟨k, rfl⟩ := Int.eq_ofNat_of_zero_le (by omega : 0 ≤ v)
  have hfloor : (k : ℚ).floor = k := Rat.floor_intCast k
  rw [Number.ofInt_natCast (by omega), Number.count, hfloor, Int.toNat_natCast]

/-! ## The default by cases -/

theorem ofHost_of_unset (h : host.environment.value? overrideName = none) :
    ofHost host = (ofCpus host.cpus, none) := by
  unfold ofHost
  rw [h]

theorem ofHost_of_not_startsWith (hvalue : host.environment.value? overrideName = some t)
    (h : ¬ ∃ v, StartsWith t v) : ∃ warning, ofHost host = (ofCpus host.cpus, some warning) := by
  unfold ofHost
  rw [hvalue]
  simp only [parsed_of_not_startsWith h]
  exact ⟨_, rfl⟩

/-- The number that the environment starts with is brought into range, and there is a warning when
it is out of range. -/
theorem ofHost_of_startsWith (hvalue : host.environment.value? overrideName = some t)
    (h : StartsWith t v) :
    ((ofHost host).1 : Int) = min 64 (max 1 v) ∧
      ((ofHost host).2.isSome = true ↔ v < 1 ∨ 64 < v) := by
  have hbelow : (Number.ofInt v).isBelow least = true ↔ v < 1 :=
    Number.isBelow_ofInt_iff (by decide) (by decide)
  have habove : (Number.ofInt v).isAbove limit = true ↔ 64 < v :=
    Number.isAbove_ofInt_iff (by decide)
  unfold ofHost
  simp only [hvalue, parsed_of_startsWith h]
  split
  · next hnan => exact absurd hnan (ofInt_ne_nan v)
  · split
    · next hlow =>
      rw [hbelow] at hlow
      exact ⟨by simp only [least]; omega, iff_of_true rfl (.inl hlow)⟩
    · next hlow =>
      rw [hbelow] at hlow
      split
      · next hhigh =>
        rw [habove] at hhigh
        exact ⟨by simp only [limit]; omega, iff_of_true rfl (.inr hhigh)⟩
      · next hhigh =>
        rw [habove] at hhigh
        refine ⟨?_, iff_of_false Bool.false_ne_true (by omega)⟩
        rw [count_ofInt (by omega) (by omega)]
        omega

/-- The ways a default comes about. -/
theorem ofHost_cases (host : Host) :
    (ofHost host).1 = ofCpus host.cpus ∨
      ∃ v : Int, ((ofHost host).1 : Int) = min 64 (max 1 v) := by
  cases hvalue : host.environment.value? overrideName with
  | none => exact .inl (congrArg Prod.fst (ofHost_of_unset hvalue))
  | some t =>
    by_cases hstarts : ∃ v, StartsWith t v
    · obtain ⟨v, hv⟩ := hstarts
      exact .inr ⟨v, (ofHost_of_startsWith hvalue hv).1⟩
    · obtain ⟨warning, heq⟩ := ofHost_of_not_startsWith hvalue hstarts
      exact .inl (congrArg Prod.fst heq)

theorem one_le_ofHost (host : Host) : 1 ≤ (ofHost host).1 := by
  rcases ofHost_cases host with h | ⟨v, h⟩
  · rw [h]
    exact le_max_left _ _
  · omega

/-- The default of a host with a finite number of processors is a finite number. -/
theorem isFinite_ofHost (h : (Number.ofInt host.cpus).isFinite = true) :
    (Number.ofInt (ofHost host).1).isFinite = true := by
  have hsmall : ∀ n : Nat, n ≤ 64 → (Number.ofInt n).isFinite = true := by
    intro n hn
    rw [Number.ofInt_natCast (by omega)]
    rfl
  rcases ofHost_cases host with heq | ⟨v, heq⟩
  · rcases Nat.lt_or_ge host.cpus 2 with hfew | hmany
    · apply hsmall
      rw [heq, ofCpus, least]
      omega
    · refine Number.isFinite_ofInt_mono ?_ h
      rw [heq, ofCpus, least]
      omega
  · exact hsmall _ (by omega)

/-- So the default is passed on as a whole number that is at least one. -/
theorem exists_ofInt_ofHost_eq (h : (Number.ofInt host.cpus).isFinite = true) :
    ∃ n : Nat, 1 ≤ n ∧ Number.ofInt (ofHost host).1 = .finite n :=
  Number.exists_ofInt_eq_natCast (one_le_ofHost host) (isFinite_ofHost h)

end Concurrency

end BulkTransfer
