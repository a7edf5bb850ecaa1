import Mathlib.Algebra.Order.Ring.Rat
import BulkTransfer.Timers
import BulkTransfer.Proofs.Number.Rounding

/-!
# Steady clocks

A clock is steady when it never shows a later instant as an earlier one, and shows what it has shown
as it is.  By a steady clock no delay leads back in time (`Steady.le_after`).  The clock of the
machine is steady, since rounding to floating point values keeps the order (`steady_binary`).  So
timers that are set for delays from now are ahead of it, and stay so when the first one fires
(`Timers.Ahead`).
-/

namespace BulkTransfer

namespace Clock

/-- A clock that keeps the order of instants and shows each time that it shows as it is. -/
structure Steady (clock : Clock) : Prop where
  zero : clock.shown 0 = 0
  mono : ∀ {a b : Rat}, 0 ≤ a → a ≤ b → clock.shown a ≤ clock.shown b
  again : ∀ {a : Rat}, 0 ≤ a → clock.shown (clock.shown a) = clock.shown a

/-- A time that a clock may show. -/
structure Shows (clock : Clock) (time : Time) : Prop where
  nonneg : 0 ≤ time
  shown : clock.shown time = time

variable {clock : Clock} {time delay : Time}

theorem Steady.shows_zero (h : clock.Steady) : clock.Shows 0 := ⟨le_rfl, h.zero⟩

/-- A delay does not lead back in time. -/
theorem Steady.le_after (h : clock.Steady) (ht : clock.Shows time) (hd : 0 ≤ delay) :
    time ≤ clock.after time delay := by
  calc time = clock.shown time := ht.shown.symm
    _ ≤ clock.shown (time + delay) := h.mono ht.nonneg (le_add_of_nonneg_right hd)

/-- A delay leads no less far than it would from the start of the run. -/
theorem Steady.delay_le_after (h : clock.Steady) (ht : clock.Shows time) (hd : clock.Shows delay) :
    delay ≤ clock.after time delay := by
  calc delay = clock.shown delay := hd.shown.symm
    _ ≤ clock.shown (time + delay) := h.mono hd.nonneg (le_add_of_nonneg_left ht.nonneg)

theorem Steady.shows_after (h : clock.Steady) (ht : clock.Shows time) (hd : 0 ≤ delay) :
    clock.Shows (clock.after time delay) where
  nonneg := ht.nonneg.trans (h.le_after ht hd)
  shown := h.again (add_nonneg ht.nonneg hd)

theorem steady_exact : exact.Steady := ⟨rfl, fun _ h => h, fun _ => rfl⟩

theorem steady_binary : binary.Steady :=
  ⟨Number.rounded_zero, Number.rounded_mono, Number.rounded_rounded⟩

end Clock

namespace Timers

variable {α : Type} {clock : Clock} {now due delay : Time} {a : α} {timers rest : Timers α}

/-- Timers in the order of their times, none of which is before now. -/
structure Ahead (clock : Clock) (now : Time) (timers : Timers α) : Prop where
  shows : clock.Shows now
  sorted : timers.Pairwise fun x y => x.1 ≤ y.1
  later : ∀ timer ∈ timers, now ≤ timer.1 ∧ clock.Shows timer.1

namespace Ahead

theorem nil (h : clock.Shows now) : Ahead clock now ([] : Timers α) :=
  ⟨h, .nil, fun _ ht => absurd ht List.not_mem_nil⟩

theorem set (h : Ahead clock now timers) (hclock : clock.Steady) (hdelay : 0 ≤ delay) (a : α) :
    Ahead clock now (set (clock.after now delay) a timers) := by
  refine ⟨h.shows, pairwise_set _ _ _ h.sorted, fun timer ht => ?_⟩
  rcases mem_set.1 ht with rfl | ht
  · exact ⟨hclock.le_after h.shows hdelay, hclock.shows_after h.shows hdelay⟩
  · exact h.later timer ht

/-- The time goes on to the first timer. -/
theorem fire (h : Ahead clock now ((due, a) :: rest)) : now ≤ due ∧ Ahead clock due rest := by
  obtain ⟨hfirst, hrest⟩ := List.pairwise_cons.1 h.sorted
  obtain ⟨⟨hle, hshows⟩, hothers⟩ := List.forall_mem_cons.1 h.later
  exact ⟨hle, hshows, hrest, fun timer ht => ⟨hfirst timer ht, (hothers timer ht).2⟩⟩

end Ahead

end Timers

end BulkTransfer
