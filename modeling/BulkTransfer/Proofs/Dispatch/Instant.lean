import Mathlib.Algebra.Ring.Rat
import Mathlib.Data.List.Perm.Subperm
import BulkTransfer.Clock

/-!
# Instants of a batch

An operation begins at 0 or when some other one ends, so every instant of a batch adds up delays of
different tasks (`Instant`).  A duration is read off the clock at the two ends of an operation; it
is the delay of the operation if the clock shows sums of the delays as they are
(`Instant.between_after`).
-/

namespace BulkTransfer

/-- A time that a batch reaches by delays of the tasks at the given indices, the last one first. -/
inductive Instant (clock : Clock) (delays : List Time) : List Nat → Time → Prop
  | zero : Instant clock delays [] 0
  | later {chain : List Nat} {time : Time} {i : Nat} {delay : Time}
    (h : Instant clock delays chain time) (hnew : i ∉ chain) (hdelay : delays[i]? = some delay) :
    Instant clock delays (i :: chain) (clock.after time delay)

/-- A clock shows every sum of delays of different tasks as it is. -/
def Clock.ShowsSums (clock : Clock) (delays : List Time) : Prop :=
  ∀ part : List Time, part.Subperm delays → clock.shown part.sum = part.sum

theorem Clock.showsSums_exact (delays : List Time) : exact.ShowsSums delays := fun _ _ => rfl

namespace Instant

variable {clock : Clock} {delays : List Time} {chain : List Nat} {time : Time}

theorem nodup (h : Instant clock delays chain time) : chain.Nodup := by
  induction h with
  | zero => exact List.nodup_nil
  | later h hnew hdelay ih => exact List.nodup_cons.2 ⟨hnew, ih⟩

theorem lt_length (h : Instant clock delays chain time) {i : Nat} (hi : i ∈ chain) :
    i < delays.length := by
  induction h with
  | zero => exact absurd hi List.not_mem_nil
  | later h hnew hdelay ih =>
    rcases List.mem_cons.1 hi with rfl | hi
    · exact (List.getElem?_eq_some_iff.1 hdelay).1
    · exact ih hi

theorem subperm (h : Instant clock delays chain time) :
    (chain.map fun i => delays[i]?.getD 0).Subperm delays := by
  have hrange : chain.Subperm (List.range delays.length) :=
    h.nodup.subperm fun i hi => List.mem_range.2 (h.lt_length hi)
  obtain ⟨part, hperm, hsub⟩ := hrange
  have hall : (List.range delays.length).map (fun i => delays[i]?.getD 0) = delays := by
    refine List.ext_getElem? fun i => ?_
    by_cases hi : i < delays.length <;> simp [hi]
  have hsublist := hsub.map fun i => delays[i]?.getD 0
  rw [hall] at hsublist
  exact ⟨_, hperm.map _, hsublist⟩

/-- By a clock that shows sums of delays, an instant is the sum of the delays of its chain. -/
theorem eq_sum (h : Instant clock delays chain time) (hclock : clock.ShowsSums delays) :
    time = (chain.map fun i => delays[i]?.getD 0).sum := by
  induction h with
  | zero => rfl
  | @later chain time i delay h hnew hdelay ih =>
    -- The clock shows the sum of the whole chain, so its last rounding changes nothing.
    have hsum := hclock _ (later h hnew hdelay).subperm
    simp only [List.map_cons, List.sum_cons, hdelay, Option.getD_some] at hsum ⊢
    rw [Clock.after, ih, Rat.add_comm]
    exact hsum

/-- By such a clock the span of a delay after an instant is the delay. -/
theorem between_after (h : Instant clock delays chain time) (hclock : clock.ShowsSums delays)
    {i : Nat} {delay : Time} (hnew : i ∉ chain) (hdelay : delays[i]? = some delay) :
    clock.between time (clock.after time delay) = delay := by
  have hend := (later h hnew hdelay).eq_sum hclock
  have hbegin := h.eq_sum hclock
  simp only [List.map_cons, List.sum_cons, hdelay, Option.getD_some, ← hbegin] at hend
  have hsingle : clock.shown delay = delay := by
    have := hclock [delay] (List.singleton_subperm_iff.2 (List.mem_of_getElem? hdelay))
    simpa [Rat.add_zero] using this
  rw [Clock.between, hend]
  have hspan : delay + time - time = delay := by
    rw [Rat.sub_eq_add_neg, Rat.add_assoc, Rat.add_neg_cancel, Rat.add_zero]
  rw [hspan, hsingle]

end Instant

end BulkTransfer
