import Mathlib.Algebra.Order.Floor.Semifield
import Mathlib.Data.List.Perm.Subperm
import Mathlib.Data.Rat.Floor
import Mathlib.Tactic.Ring
import BulkTransfer.Proofs.Pool.Hearing
import BulkTransfer.Worker.Progress

/-!
# Counts that begin a tenth

While tasks finish one by one, the meter shows a line at each count that is the first one of its
tenth, and none at any other (`retells_observer`).  These counts have strictly increasing tenths
from 0 to 10, so there are at most eleven of them, and the last one is the number of all tasks
(`marksTenths_marks`, `MarksTenths.eq_marks`).
-/

namespace BulkTransfer

namespace Meter

/-- The tenth of all tasks that a count has reached, by exact division. -/
def decile (total completed : Nat) : Nat := ⌊(completed / total : ℚ) * 10⌋₊

/-- A count is the first one that reaches its tenth. -/
def Begins (total completed : Nat) : Prop :=
  ∀ earlier < completed, 0 < earlier → decile total earlier ≠ decile total completed

/-- Counts are those that begin a tenth of all tasks.  They increase, and their tenths increase
strictly from 0 to 10, so there are at most eleven of them, and the last one is the number of all
tasks. -/
structure MarksTenths (total : Nat) (counts : List Nat) : Prop where
  mem_iff : ∀ c, c ∈ counts ↔ 0 < c ∧ c ≤ total ∧ Begins total c
  sorted : counts.Pairwise (· < ·)
  deciles_sorted : (counts.map (decile total)).Pairwise (· < ·)
  decile_le : ∀ c ∈ counts, decile total c ≤ 10
  length_le : counts.length ≤ 11
  last : 0 < total → counts.getLast? = some total ∧ decile total total = 10

/-! ## Tenths -/

theorem decile_eq_tenth (total completed : Nat) :
    decile total completed = tenth completed total := by
  have hquotient : (completed / total : ℚ) * 10 = ((10 * completed : ℕ) : ℚ) / (total : ℕ) := by
    push_cast
    ring
  rw [decile, hquotient, Nat.floor_div_eq_div, tenth]

variable {total : Nat}

theorem decile_mono {c d : Nat} (h : c ≤ d) : decile total c ≤ decile total d := by
  simp only [decile_eq_tenth, tenth]
  exact Nat.div_le_div_right (Nat.mul_le_mul_left 10 h)

theorem decile_le_ten {c : Nat} (h : c ≤ total) : decile total c ≤ 10 := by
  rw [decile_eq_tenth, tenth]
  exact Nat.div_le_of_le_mul (by omega)

theorem decile_self (h : 0 < total) : decile total total = 10 := by
  rw [decile_eq_tenth, tenth, Nat.mul_div_cancel _ h]

/-- The last tenth is reached at the end. -/
theorem decile_lt_ten {c : Nat} (h : c < total) : decile total c < 10 := by
  rw [decile_eq_tenth, tenth, Nat.div_lt_iff_lt_mul (by omega)]
  omega

/-! ## Counts that begin one -/

instance (total completed : Nat) : Decidable (Begins total completed) :=
  decidable_of_iff
    (∀ earlier < completed, 0 < earlier → tenth earlier total ≠ tenth completed total)
    (by simp only [Begins, decile_eq_tenth])

/-- The counts that begin a tenth. -/
def marks (total : Nat) : List Nat := (List.range' 1 total).filter fun c => Begins total c

theorem mem_marks_iff {c : Nat} : c ∈ marks total ↔ 0 < c ∧ c ≤ total ∧ Begins total c := by
  rw [marks, List.mem_filter, List.mem_range'_1, decide_eq_true_iff]
  constructor
  · exact fun ⟨hrange, hbegins⟩ => ⟨by omega, by omega, hbegins⟩
  · exact fun ⟨hpos, hle, hbegins⟩ => ⟨by omega, hbegins⟩

theorem pairwise_marks : (marks total).Pairwise (· < ·) :=
  List.Pairwise.filter _ List.pairwise_lt_range'

theorem pairwise_map_decile_marks : ((marks total).map (decile total)).Pairwise (· < ·) := by
  refine List.pairwise_map.2 (pairwise_marks.imp_of_mem fun {c d} hc hd hlt => ?_)
  have hne := (mem_marks_iff.1 hd).2.2 c hlt (mem_marks_iff.1 hc).1
  exact Nat.lt_of_le_of_ne (decile_mono (Nat.le_of_lt hlt)) hne

theorem length_marks_le (total : Nat) : (marks total).length ≤ 11 := by
  have hnodup : ((marks total).map (decile total)).Nodup :=
    pairwise_map_decile_marks.imp Nat.ne_of_lt
  have hrange : (marks total).map (decile total) ⊆ List.range 11 := fun d hd => by
    obtain ⟨c, hc, rfl⟩ := List.mem_map.1 hd
    exact List.mem_range.2 (Nat.lt_succ_of_le (decile_le_ten (mem_marks_iff.1 hc).2.1))
  have hlength := (hnodup.subperm hrange).length_le
  rwa [List.length_map, List.length_range] at hlength

theorem getLast?_marks (h : 0 < total) : (marks total).getLast? = some total := by
  obtain ⟨n, rfl⟩ := Nat.exists_eq_add_one.2 h
  have hbegins : Begins (n + 1) (n + 1) := fun earlier hlt _ => by
    rw [decile_self h]
    exact Nat.ne_of_lt (decile_lt_ten hlt)
  have hrange : List.range' 1 (n + 1) = List.range' 1 n ++ [n + 1] := by
    rw [List.range'_concat, Nat.one_mul, Nat.add_comm 1]
  have hlast : [n + 1].filter (fun c => Begins (n + 1) c) = [n + 1] := by
    simpa using hbegins
  rw [marks, hrange, List.filter_append, hlast, List.getLast?_concat]

theorem marksTenths_marks (total : Nat) : MarksTenths total (marks total) where
  mem_iff := fun _ => mem_marks_iff
  sorted := pairwise_marks
  deciles_sorted := pairwise_map_decile_marks
  decile_le := fun _ hc => decile_le_ten (mem_marks_iff.1 hc).2.1
  length_le := length_marks_le total
  last := fun h => ⟨getLast?_marks h, decile_self h⟩

/-- No other counts mark the tenths. -/
theorem MarksTenths.eq_marks {total : Nat} {counts : List Nat} (h : MarksTenths total counts) :
    counts = marks total := by
  have hperm : counts.Perm (marks total) :=
    (List.perm_ext_iff_of_nodup (h.sorted.imp Nat.ne_of_lt) (pairwise_marks.imp Nat.ne_of_lt)).2
      fun c => (h.mem_iff c).trans mem_marks_iff.symm
  exact hperm.eq_of_pairwise (fun _ _ _ _ hlt hgt => absurd hgt (Nat.lt_asymm hlt)) h.sorted
    pairwise_marks

/-! ## The meter while tasks finish -/

/-- The meter once so many tasks have finished. -/
def after (total completed : Nat) : Meter :=
  if completed = 0 then none else some (tenth completed total)

/-- The next count begins a tenth exactly when the meter shows another one. -/
theorem begins_succ_iff {completed : Nat} :
    Begins total (completed + 1) ↔
      after total completed ≠ some (tenth (completed + 1) total) := by
  by_cases hzero : completed = 0
  · subst hzero
    exact iff_of_true (fun earlier hlt hpos => absurd hpos (by omega)) (by simp [after])
  · rw [after, if_neg hzero, Ne, Option.some.injEq, ← decile_eq_tenth, ← decile_eq_tenth]
    constructor
    · exact fun h => h completed (by omega) (by omega)
    · intro hne earlier hlt _ hsame
      have hle : decile total earlier ≤ decile total completed := decile_mono (by omega)
      have hnext : decile total completed ≤ decile total (completed + 1) :=
        decile_mono (by omega)
      omega

theorem tick_after (total completed : Nat) :
    tick (after total completed) (completed + 1) total =
      (if Begins total (completed + 1) then [line (completed + 1) total] else [],
        after total (completed + 1)) := by
  have hafter : after total (completed + 1) = some (tenth (completed + 1) total) :=
    if_neg (by omega)
  rw [tick, hafter]
  by_cases hbegins : Begins total (completed + 1)
  · rw [if_neg (begins_succ_iff.1 hbegins), if_pos hbegins]
  · have hsame := not_not.1 (mt begins_succ_iff.2 hbegins)
    rw [if_pos hsame, if_neg hbegins, hsame]

/-- What is shown in place of an event: a report shows the line of its count, if that begins a
tenth. -/
def shown : Event → List Event
  | .progress _ _ completed total _ => if Begins total completed then [line completed total] else []
  | e => [e]

theorem retells_observer : observer.Retells after shown where
  state := fun _ => rfl
  next := fun _ _ _ _ => by simp only [observer, tick_after]
  report := fun _ _ _ _ => by simp only [observer, tick_after, Pool.noticeEvents_eq, shown]; simp
  console := fun _ _ => rfl
  started := fun _ _ => rfl

end Meter

end BulkTransfer
