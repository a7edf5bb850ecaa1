import Mathlib.Data.Rat.Floor
import BulkTransfer.Proofs.Dispatch.Behaviours
import BulkTransfer.Proofs.Pool.Loop

/-!
# Serial batches

A concurrency below two leaves one worker, and a batch with one worker is a plain loop: each job
runs to its end before the next one is called.  Results and events are those of the loop, but for a
warning in front of them when the concurrency is below one (`run_eq_serially`).
-/

namespace BulkTransfer

namespace Concurrency

/-- What a finite number of transfers at a time is warned about. -/
def clampWarning (q : Rat) : Option Text :=
  if q < 1 then
    some ("Concurrency " ++ (Number.finite q).render ++ " is below minimum " ++ Text.ofNat least ++
      ", running serially")
  else none

/-- Below two there is one transfer at a time. -/
theorem normalize_of_lt_two {q : Rat} (h : q < 2) :
    normalize (.finite q) = .ok (1, clampWarning q) := by
  have hfloor : q.floor < 2 := Rat.floor_lt_iff.2 (by exact_mod_cast h)
  have hleast : q.floor < (least : Int) ↔ q < 1 := by
    rw [Rat.floor_lt_iff]
    norm_cast
  unfold normalize clampWarning
  by_cases hlow : q < 1
  · simp only [if_pos (hleast.2 hlow), if_pos hlow]
    rfl
  · have hone : q.floor.toNat = 1 := by
      have hge := mt hleast.1 hlow
      simp only [least] at hge
      omega
    simp only [if_neg (mt hleast.1 hlow), if_neg hlow, hone]

end Concurrency

namespace Dispatch

variable {σ τ : Type}

/-- A batch as a loop over its jobs. -/
def serially (clock : Clock) (jobs : List (Job σ)) (observer : Observer τ) (world : σ) :
    Ran σ (List TransferResult) :=
  if jobs.isEmpty then .value [] world
  else
    let loop := Loop.run clock world observer jobs
    { outcome := .ok loop.results
      world := loop.world
      events := [openingLine jobs.length 1] ++ loop.events ++ [closingLine loop.now loop.results] }

/-- The lines about the concurrency of a batch, which is looked at only if there are jobs. -/
def clampLines (jobs : List (Job σ)) (q : Rat) : List Event :=
  if jobs.isEmpty then [] else (Concurrency.clampWarning q).toList.map .warn

/-- With a concurrency below two a batch leaves the same results, the same world and the same events
as the loop that runs each job to its end, whatever the operations and the observer do; only a
warning goes in front when the concurrency is below one. -/
theorem run_eq_serially (clock : Clock) (jobs : List (Job σ)) {q : Rat} (hq : q < 2)
    (observer : Observer τ) (world : σ) :
    (run clock jobs (.finite q) observer world).toRan =
      (serially clock jobs observer world).after (clampLines jobs q) := by
  by_cases hjobs : jobs = []
  · subst hjobs
    rfl
  have hempty : ¬ jobs.isEmpty = true := by simpa using hjobs
  have hone : min 1 jobs.length = 1 := by
    have hlength : 0 < jobs.length := List.length_pos_iff.2 hjobs
    omega
  obtain ⟨peak, hrun⟩ := Loop.run_single clock world observer jobs
  have hresults := Loop.results_single clock world observer jobs
  rw [hrun] at hresults
  rw [run_of_normalize clock jobs observer world hjobs (Concurrency.normalize_of_lt_two hq), hone]
  unfold serially clampLines
  rw [if_neg hempty, if_neg hempty]
  simp only [pool, hrun, hresults]
  simp [Loop.pool, Ran.after]

/-- Three tasks whose operations throw at once, are rejected, and succeed. -/
def throwsRejectsSucceeds : List (Task × Behaviour) :=
  [(⟨"c", "a", "/d/a", .upload⟩, .throws (.general "denied")),
    (⟨"c", "b", "/d/b", .upload⟩, .settles 3 (.error (.general "lost"))),
    (⟨"c", "e", "/d/e", .upload⟩, .settles 2 (.ok ()))]

/-- The warning about the concurrency stands in front of what the loop leaves. -/
theorem run_eq_serially_below_zero :
    let full : Nat → Option Thrown := fun count =>
      if count = 2 then some (.general "full") else none
    (-3 / 2 : Rat) < 2 ∧
      (run .binary (Behaviour.jobs throwsRejectsSucceeds) (.finite (-3 / 2)) (.recording full)
        ()).events =
      [.warn "Concurrency -1.5 is below minimum 1, running serially",
        .log "Dispatching 3 tasks across 1 workers",
        .started "a" 0, .error "Failed to upload c/a: denied", .progress "a" false 1 3 0,
        .started "b" 0, .error "Failed to upload c/b: lost", .progress "b" false 2 3 3,
        .warn "Progress callback failed: full",
        .started "e" 3, .progress "e" true 3 3 5,
        .log "Batch finished in 5ms: 1 succeeded, 2 failed"] := by
  intro full
  have hbelow : (-3 / 2 : Rat) < 2 := by decide +kernel
  have hrun := run_eq_serially .binary (Behaviour.jobs throwsRejectsSucceeds) hbelow
    (.recording full) ()
  refine ⟨hbelow, (congrArg (·.events) hrun).trans ?_⟩
  decide +kernel

end Dispatch

end BulkTransfer
