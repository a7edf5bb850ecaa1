import BulkTransfer.Clock

/-!
# Timers

Timers in the order in which they fire: by their time, and those of one time in the order in which
they were set.
-/

namespace BulkTransfer

/-- Timers with what they carry, the next one to fire first. -/
abbrev Timers (α : Type) := List (Time × α)

namespace Timers

variable {α : Type}

def set (due : Time) (a : α) : Timers α → Timers α
  | [] => [(due, a)]
  | timer :: rest => if due < timer.1 then (due, a) :: timer :: rest else timer :: set due a rest

theorem length_set (due : Time) (a : α) (timers : Timers α) :
    (set due a timers).length = timers.length + 1 := by
  induction timers with
  | nil => rfl
  | cons timer rest ih => rw [set]; split <;> simp [ih]

theorem set_perm (due : Time) (a : α) (timers : Timers α) :
    (set due a timers).Perm ((due, a) :: timers) := by
  induction timers with
  | nil => exact .refl _
  | cons timer rest ih =>
    rw [set]
    split
    · exact .refl _
    · exact (ih.cons timer).trans (.swap _ _ _)

theorem mem_set {due : Time} {a : α} {timers : Timers α} {timer : Time × α} :
    timer ∈ set due a timers ↔ timer = (due, a) ∨ timer ∈ timers := by
  rw [(set_perm due a timers).mem_iff, List.mem_cons]

/-- Setting a timer keeps the order of times. -/
theorem pairwise_set (due : Time) (a : α) (timers : Timers α)
    (h : timers.Pairwise fun x y => x.1 ≤ y.1) :
    (set due a timers).Pairwise fun x y => x.1 ≤ y.1 := by
  induction timers with
  | nil => simp [set]
  | cons timer rest ih =>
    obtain ⟨hle, hrest⟩ := List.pairwise_cons.mp h
    rw [set]
    split
    · next hlt =>
      refine List.pairwise_cons.mpr ⟨fun other hother => ?_, h⟩
      rcases List.mem_cons.mp hother with rfl | hmem
      · exact Rat.le_of_lt hlt
      · exact Rat.le_trans (Rat.le_of_lt hlt) (hle other hmem)
    · next hnot =>
      refine List.pairwise_cons.mpr ⟨fun other hother => ?_, ih hrest⟩
      rcases mem_set.mp hother with rfl | hmem
      · exact Rat.not_lt.mp hnot
      · exact hle other hmem

end Timers

end BulkTransfer
