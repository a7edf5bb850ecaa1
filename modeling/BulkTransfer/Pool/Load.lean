import BulkTransfer.Pool

/-!
# Runs come to an end

Every move of a pool lowers its load (`load_lt_of_step?`), so as many moves as the load says leave
none to make (`step?_run`).
-/

namespace BulkTransfer

namespace Pool

variable {σ τ : Type}

/-! ## The load after parts of a move -/

theorem load_emit (p : Pool σ τ) (events : List Event) : (p.emit events).load = p.load := rfl

theorem loads_append (ready more : List Resume) :
    Resume.loads (ready ++ more) = Resume.loads ready + Resume.loads more := by
  induction ready with
  | nil => simp [Resume.loads]
  | cons r rest ih => simp only [List.cons_append, Resume.loads, ih, Nat.add_assoc]

theorem load_enqueue (p : Pool σ τ) (r : Resume) : (p.enqueue r).load = p.load + r.load := by
  simp only [load, enqueue, loads_append, Resume.loads]
  omega

theorem load_wait (p : Pool σ τ) (delay : Time) (flight : Flight σ) :
    (p.wait delay flight).load = p.load + 2 := by
  simp only [load, wait, Timers.length_set]
  omega

theorem load_record (p : Pool σ τ) (index : Nat) (result : TransferResult) :
    (p.record index result).load = p.load := rfl

theorem load_launched_lt (p : Pool σ τ) (index : Nat) (task : Task) (launch : Launch σ) :
    (p.launched index task launch).load < p.load + 4 := by
  cases launch <;> simp only [launched, load_enqueue, load_wait, load_emit, Resume.load] <;> omega

/-- Taking a job gives back at most what the job weighed. -/
theorem load_takeNext_le (p : Pool σ τ) : p.takeNext.load ≤ p.load := by
  rw [takeNext]
  split
  · exact Nat.le_refl _
  · next index job rest h =>
    refine Nat.le_of_lt (Nat.lt_of_lt_of_le (load_launched_lt _ _ _ _) ?_)
    simp only [load, called, emit, h, List.length_cons]
    omega

/-! ## The load after a move -/

theorem load_resume_lt (p : Pool σ τ) (r : Resume) : (p.resume r).load < p.load + r.load := by
  cases r with
  | next => exact Nat.lt_succ_of_le p.load_takeNext_le
  | logFailure index task began error =>
    simp only [resume, load_enqueue, load_emit, Resume.load]
    omega
  | conclude index result =>
    have := (p.record index result).load_takeNext_le
    rw [load_record] at this
    simp only [resume, Resume.load]
    omega

theorem load_fire_le (p : Pool σ τ) (due : Time) (flight : Flight σ) :
    (p.fire due flight).load ≤ p.load :=
  load_takeNext_le _

theorem load_lt_of_step? {p next : Pool σ τ} (h : p.step? = some next) : next.load < p.load := by
  rw [step?] at h
  split at h
  · next r rest hready =>
    cases h
    refine Nat.lt_of_lt_of_le (load_resume_lt _ r) ?_
    simp only [load, hready, Resume.loads]
    omega
  · next due flight rest hready htimers =>
    cases h
    refine Nat.lt_of_le_of_lt (load_fire_le _ due flight) ?_
    simp only [load, htimers, List.length_cons]
    omega
  · cases h

/-! ## Runs -/

theorem step?_drive {moves : Nat} {p : Pool σ τ} (h : p.load ≤ moves) :
    (drive moves p).step? = none := by
  induction moves generalizing p with
  | zero =>
    cases hstep : p.step? with
    | none => simpa [drive] using hstep
    | some next =>
      have := load_lt_of_step? hstep
      omega
  | succ moves ih =>
    rw [drive]
    cases hstep : p.step? with
    | none => exact hstep
    | some next =>
      have := load_lt_of_step? hstep
      exact ih (by omega)

/-- A run ends with no move left. -/
theorem step?_run (p : Pool σ τ) : p.run.step? = none := step?_drive (Nat.le_refl _)

end Pool

end BulkTransfer
