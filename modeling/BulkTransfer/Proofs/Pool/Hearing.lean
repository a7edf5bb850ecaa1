import BulkTransfer.Proofs.Pool.Invariant

/-!
# Observers that hear of the same tasks

An observer changes nothing but its own state and what is shown at a report.  So when its state
depends on the counts alone, the run of a pool with it is the run with a recording observer that
never throws, with each report told in its own way (`run_retell`).  A recording observer that throws
at some counts tells the report with a warning right after it (`retells_recording`).
-/

namespace BulkTransfer

/-- The recording observer that never throws. -/
def Observer.quiet : Observer Unit := recording fun _ => none

/-- An observer tells each report in its own way: `retold` is what it shows in place of the report,
and its state depends on the number of all tasks and the number of finished ones. -/
structure Observer.Retells {τ : Type} (observer : Observer τ) (states : Nat → Nat → τ)
    (retold : Event → List Event) : Prop where
  state : ∀ total, observer.state = states total 0
  next : ∀ result completed total time,
    (observer.react ⟨result, completed + 1, total, time⟩ (states total completed)).2 =
      states total (completed + 1)
  report : ∀ result completed total time,
    Pool.noticeEvents
        (observer.react ⟨result, completed + 1, total, time⟩ (states total completed)).1 =
      retold (.progress result.task.objectName result.succeeded (completed + 1) total time)
  console : ∀ level text, retold (.console level text) = [.console level text]
  started : ∀ object time, retold (.started object time) = [.started object time]

namespace Observer.Retells

variable {τ : Type} {observer : Observer τ} {states : Nat → Nat → τ}
  {retold : Event → List Event} (h : observer.Retells states retold)

include h

/-- Console lines stay as they are. -/
theorem flatMap_console (level : Level) (text : Text) :
    [Event.console level text].flatMap retold = [.console level text] := by
  rw [List.flatMap_cons, List.flatMap_nil, List.append_nil, h.console]

theorem flatMap_warnings (warning : Option Text) :
    (warning.toList.map Event.warn).flatMap retold = warning.toList.map Event.warn := by
  cases warning with
  | none => rfl
  | some text => exact h.flatMap_console .warn text

end Observer.Retells

/-- The events in place of one event once the observer throws at some counts: a report is followed
by the warning about what was thrown. -/
def heard (error : Nat → Option Thrown) : Event → List Event
  | .progress object succeeded completed total time =>
    Pool.noticeEvents ⟨[.progress object succeeded completed total time], error completed⟩
  | e => [e]

theorem Observer.retells_recording (error : Nat → Option Thrown) :
    (recording error).Retells (fun _ _ => ()) (heard error) where
  state := fun _ => rfl
  next := fun _ _ _ _ => rfl
  report := fun _ _ _ _ => rfl
  console := fun _ _ => rfl
  started := fun _ _ => rfl

namespace Pool

variable {σ : Type} {p : Pool σ Unit}

theorem noticeEvents_eq (notice : Notice) :
    noticeEvents notice = notice.events ++
      notice.error.toList.map fun e => .warn ("Progress callback failed: " ++ e.display) := by
  rw [noticeEvents]
  cases notice.error <;> rfl

/-! ## The observer that never throws -/

theorem observer_launched (index : Nat) (task : Task) (launch : Launch σ) :
    (p.launched index task launch).observer = p.observer := by
  cases launch <;> rfl

/-- The observer that never throws records each report, and nothing else. -/
theorem record_of_quiet (hquiet : p.observer = .quiet) (index : Nat) (result : TransferResult) :
    p.record index result = { p with finished := p.finished ++ [(index, result)] }.emit
      [.progress result.task.objectName result.succeeded (p.finished.length + 1) p.total
        p.now] := by
  simp only [record, emit, hquiet, Observer.quiet, Observer.recording, List.length_append,
    List.length_singleton]
  rfl

theorem observer_record (hquiet : p.observer = .quiet) (index : Nat) (result : TransferResult) :
    (p.record index result).observer = .quiet := by
  rw [record_of_quiet hquiet]
  exact hquiet

theorem invariant_quiet : Invariant fun p : Pool σ Unit => p.observer = .quiet where
  wake := fun h _ => h
  logFailure := fun h _ => h
  conclude := fun h _ => observer_record h _ _
  land := fun h _ _ => by
    rw [land, observer_record]
    exact h
  call := fun h _ => (observer_launched _ _ _).trans h

/-! ## The parts of a move -/

section

variable {τ : Type} {observer : Observer τ} {states : Nat → Nat → τ}
  {retold : Event → List Event}

/-- The pool whose observer tells each report in its own way, and has done so. -/
def retell (observer : Observer τ) (states : Nat → Nat → τ) (retold : Event → List Event)
    (p : Pool σ Unit) : Pool σ τ :=
  { world := p.world
    observer := { observer with state := states p.total p.finished.length }
    total := p.total
    clock := p.clock
    now := p.now
    unstarted := p.unstarted
    ready := p.ready
    timers := p.timers
    finished := p.finished
    events := p.events.flatMap retold
    peak := p.peak }

theorem retell_emit {events : List Event} (hevents : events.flatMap retold = events) :
    (retell observer states retold p).emit events =
      retell observer states retold (p.emit events) := by
  simp only [retell, emit, List.flatMap_append, hevents]

variable (h : observer.Retells states retold)

include h

theorem flatMap_retold_failureLines (task : Task) (outcome : Except Thrown Unit) :
    (failureLines task outcome).flatMap retold = failureLines task outcome := by
  cases outcome with
  | ok _ => rfl
  | error error => exact h.flatMap_console .error _

theorem retell_called (job : Job σ) (rest : List (Nat × Job σ)) :
    (retell observer states retold p).called job rest =
      retell observer states retold (p.called job rest) :=
  retell_emit (p := { p with unstarted := rest, world := (job.call p.world).2 })
    ((List.append_nil _).trans (h.started _ _))

theorem retell_failureLine (task : Task) (error : Thrown) :
    (retell observer states retold p).emit [failureLine task error] =
      retell observer states retold (p.emit [failureLine task error]) :=
  retell_emit (flatMap_retold_failureLines h task (.error error))

theorem retell_launched (index : Nat) (task : Task) (launch : Launch σ) :
    (retell observer states retold p).launched index task launch =
      retell observer states retold (p.launched index task launch) := by
  cases launch with
  | throws error =>
    rw [launched, retell_failureLine h]
    rfl
  | refused error => rfl
  | waits delay finish => rfl

theorem retell_takeNext : (retell observer states retold p).takeNext =
    retell observer states retold p.takeNext := by
  have hunstarted : (retell observer states retold p).unstarted = p.unstarted := rfl
  rcases hu : p.unstarted with _ | ⟨⟨index, job⟩, rest⟩
  · rw [takeNext_of_nil hu, takeNext_of_nil (hunstarted.trans hu)]
  · rw [takeNext_of_cons hu, takeNext_of_cons (hunstarted.trans hu), call, call,
      retell_called h, retell_launched h]
    rfl

/-- Only here the observer is told. -/
theorem retell_record (hquiet : p.observer = .quiet) (index : Nat) (result : TransferResult) :
    (retell observer states retold p).record index result =
      retell observer states retold (p.record index result) := by
  rw [record_of_quiet hquiet]
  simp only [record, retell, emit, List.length_append, List.length_singleton, List.flatMap_append,
    List.flatMap_singleton, h.next, h.report]

theorem retell_resume (hquiet : p.observer = .quiet) (r : Resume) :
    (retell observer states retold p).resume r =
      retell observer states retold (p.resume r) := by
  cases r with
  | next => exact retell_takeNext h
  | logFailure index task began error =>
    rw [resume, retell_failureLine h]
    rfl
  | conclude index result =>
    rw [resume, resume, retell_record h hquiet, retell_takeNext h]

theorem retell_fire (hquiet : p.observer = .quiet) (due : Time) (flight : Flight σ) :
    (retell observer states retold p).fire due flight =
      retell observer states retold (p.fire due flight) := by
  let landed : Pool σ Unit := { p with world := (flight.finish p.world).2, now := due }
  have hlines : (retell observer states retold landed).emit
      (failureLines flight.task (flight.finish p.world).1) =
      retell observer states retold
        (landed.emit (failureLines flight.task (flight.finish p.world).1)) :=
    retell_emit (flatMap_retold_failureLines h _ _)
  rw [fire_eq_takeNext_land, fire_eq_takeNext_land, ← retell_takeNext h, land, land,
    ← retell_record h (by exact hquiet), ← hlines]
  rfl

/-! ## Runs -/

theorem retell_step? (hquiet : p.observer = .quiet) :
    (retell observer states retold p).step? =
      p.step?.map (retell observer states retold) := by
  have hready : (retell observer states retold p).ready = p.ready := rfl
  have htimers : (retell observer states retold p).timers = p.timers := rfl
  rw [step?, step?, hready, htimers]
  split
  · next r rest hr =>
    exact congrArg some (retell_resume h (p := { p with ready := rest }) hquiet r)
  · next due flight rest hr ht =>
    exact congrArg some (retell_fire h (p := { p with timers := rest }) hquiet due flight)
  · rfl

theorem retell_drive (moves : Nat) (hquiet : p.observer = .quiet) :
    drive moves (retell observer states retold p) =
      retell observer states retold (drive moves p) := by
  induction moves generalizing p with
  | zero => rfl
  | succ moves ih =>
    rw [drive, drive, retell_step? h hquiet]
    cases hs : p.step? with
    | none => rfl
    | some next => exact ih (invariant_quiet.step? hquiet hs)

theorem run_retell (clock : Clock) (world : σ) (jobs : List (Job σ)) (workers : Nat) :
    (start clock world observer jobs workers).run =
      retell observer states retold (start clock world .quiet jobs workers).run := by
  have hstart : start clock world observer jobs workers =
      retell observer states retold (start clock world .quiet jobs workers) := by
    simp only [start, retell, List.length_nil, ← h.state]
    rfl
  rw [hstart]
  exact retell_drive h _ rfl

end

end Pool

end BulkTransfer
