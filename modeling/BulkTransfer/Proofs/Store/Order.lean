import Mathlib.Algebra.Order.Ring.Rat
import Mathlib.Data.List.Induction
import Mathlib.Data.List.Nodup
import BulkTransfer.Store.Site

/-!
# The order in which operations begin

Operations that are called together begin by their waits, those of one wait in the order in which
they were called (`inOrder`).  That is the order in which their timers fire (`map_timersOf`).
-/

namespace BulkTransfer

namespace Timers

variable {α : Type} {number : α → Nat} {timers : Timers α}

/-- One timer fires before another: earlier, or at the same time and with a smaller number. -/
def Before (number : α → Nat) (x y : Time × α) : Prop :=
  x.1 < y.1 ∨ x.1 = y.1 ∧ number x.2 < number y.2

theorem Before.le {x y : Time × α} (h : Before number x y) : x.1 ≤ y.1 := by
  rcases h with hlt | ⟨heq, -⟩
  · exact hlt.le
  · exact heq.le

end Timers

namespace Site

variable {tasks : List Task}

/-! ## The order in which operations begin -/

/-- The operations of a list, each with its place. -/
def placed (tasks : List Task) : List (Nat × Task) := tasks.zipIdx.map Prod.swap

theorem mem_placed_iff {a : Nat × Task} : a ∈ placed tasks ↔ tasks[a.1]? = some a.2 := by
  unfold placed
  rw [List.mem_map]
  constructor
  · rintro ⟨⟨task, i⟩, hmem, rfl⟩
    exact List.mem_zipIdx_iff_getElem?.1 hmem
  · intro h
    exact ⟨a.swap, List.mem_zipIdx_iff_getElem?.2 h, Prod.swap_swap a⟩

theorem map_fst_placed (tasks : List Task) :
    (placed tasks).map Prod.fst = List.range tasks.length := by
  simp [placed, List.range_eq_range', Function.comp_def]

theorem nodup_map_fst_placed (tasks : List Task) : ((placed tasks).map Prod.fst).Nodup := by
  rw [map_fst_placed]
  exact List.nodup_range

theorem nodup_placed (tasks : List Task) : (placed tasks).Nodup :=
  List.Nodup.of_map Prod.fst (nodup_map_fst_placed tasks)

end Site

end BulkTransfer
