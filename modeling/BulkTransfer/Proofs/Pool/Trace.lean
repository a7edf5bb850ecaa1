import BulkTransfer.Proofs.Pool.Hearing
import BulkTransfer.Proofs.Pool.Keeping

/-!
# What is seen of each task

The events of a pool are those of a list of sightings, each of one task.  What is seen of a task
depends on where it is: from its start, and the line about its failure, to the report on it once it
is finished (`Told`).  At the end of a run the trace tells of all jobs (`exists_chronicle_run`).
-/

namespace BulkTransfer

/-- What is seen of a task: its start, the line about its failure, or the report on it. -/
inductive Sign where
  | start
  | failure (message : Text)
  | report (succeeded : Bool)
deriving DecidableEq

/-- A sign of the task at an index, with the time and the number of tasks that are then finished. -/
structure Sighting where
  index : Nat
  task : Task
  sign : Sign
  completed : Nat
  time : Time

namespace Sighting

/-- The events by which a sign shows.  What the observer throws at a report is warned about right
after it. -/
def events (error : Nat → Option Thrown) (total : Nat) (s : Sighting) : List Event :=
  match s.sign with
  | .start => [.started s.task.objectName s.time]
  | .failure message =>
    [.error ("Failed to " ++ s.task.direction.word ++ " " ++ s.task.container ++ "/" ++
      s.task.objectName ++ ": " ++ message)]
  | .report succeeded =>
    .progress s.task.objectName succeeded s.completed total s.time ::
      (error s.completed).toList.map fun e => .warn ("Progress callback failed: " ++ e.display)

/-- The index of a task that starts. -/
def start? (s : Sighting) : Option Nat :=
  match s.sign with
  | .start => some s.index
  | _ => none

/-- The count that a report gives. -/
def count? (s : Sighting) : Option Nat :=
  match s.sign with
  | .report _ => some s.completed
  | _ => none

theorem flatMap_heard_events (error : Nat → Option Thrown) (total : Nat) (s : Sighting) :
    (s.events (fun _ => none) total).flatMap (heard error) = s.events error total := by
  rw [events, events]
  cases s.sign with
  | start => rfl
  | failure message => rfl
  | report succeeded =>
    have hreport : ∀ e, List.flatMap (heard error) [e] = heard error e := fun e =>
      List.append_nil _
    change List.flatMap (heard error) [_] = _
    rw [hreport, heard, Pool.noticeEvents_eq]
    rfl

/-- With an observer that throws, the same sightings show by their own events. -/
theorem flatMap_heard_trace (error : Nat → Option Thrown) (total : Nat) (trace : List Sighting) :
    (trace.flatMap (events (fun _ => none) total)).flatMap (heard error) =
      trace.flatMap (events error total) := by
  rw [List.flatMap_assoc]
  simp only [flatMap_heard_events]

end Sighting

/-- The signs of the task at an index, in their order. -/
def signs (index : Nat) (trace : List Sighting) : List Sign :=
  (trace.filter fun s => s.index == index).map Sighting.sign

theorem signs_append_of_eq {index : Nat} {trace more : List Sighting}
    (h : ∀ s ∈ more, s.index = index) :
    signs index (trace ++ more) = signs index trace ++ more.map Sighting.sign := by
  have hall : more.filter (fun s => s.index == index) = more :=
    List.filter_eq_self.2 fun s hs => by simpa using h s hs
  rw [signs, List.filter_append, hall, List.map_append, signs]

theorem signs_append_of_ne {index : Nat} {trace more : List Sighting}
    (h : ∀ s ∈ more, s.index ≠ index) : signs index (trace ++ more) = signs index trace := by
  have hnone : more.filter (fun s => s.index == index) = [] :=
    List.filter_eq_nil_iff.2 fun s hs => by simpa using h s hs
  rw [signs, List.filter_append, hnone, List.append_nil, signs]

namespace TransferResult

/-- What has been seen of a task that is about to be reported: its start and, if it failed, the line
about that. -/
def spoken (r : TransferResult) : List Sign :=
  .start :: r.detail.toList.map fun detail => .failure detail.message

/-- All that is seen of a finished task. -/
def course (r : TransferResult) : List Sign := r.spoken ++ [.report r.succeeded]

end TransferResult

/-- A trace tells of all jobs: it sights their tasks, which start in their order; the reports count
up; and what is seen of a task is the course of its result. -/
structure Chronicle {σ : Type} (jobs : List (Job σ)) (results : List TransferResult)
    (trace : List Sighting) : Prop where
  tasks : ∀ s ∈ trace, jobs[s.index]?.map Job.task = some s.task
  starts : trace.filterMap Sighting.start? = List.range jobs.length
  counts : trace.filterMap Sighting.count? = List.range' 1 jobs.length
  courses : ∀ i r, results[i]? = some r → signs i trace = r.course

/-- The signs of a task that its end shows, if it failed. -/
def failureSigns : Except Thrown Unit → List Sign
  | .ok _ => []
  | .error error => [.failure error.display]

/-! ## What has been seen at each place -/

/-- What has been seen of the task at an index. -/
structure Course where
  index : Nat
  task : Task
  signs : List Sign

def Resume.course? : Resume → Option Course
  | .next => none
  | .logFailure index task _ _ => some ⟨index, task, [.start]⟩
  | .conclude index result => some ⟨index, result.task, result.spoken⟩

def Flight.course {σ : Type} (flight : Flight σ) : Course := ⟨flight.index, flight.task, [.start]⟩

/-- What has been seen of a finished task. -/
def finishedCourse (x : Nat × TransferResult) : Course := ⟨x.1, x.2.task, x.2.course⟩

/-- A trace shows what is expected of a task. -/
structure Course.Shown {σ : Type} (jobs : List (Job σ)) (trace : List Sighting) (c : Course) :
    Prop where
  task : jobs[c.index]?.map Job.task = some c.task
  signs : BulkTransfer.signs c.index trace = c.signs

namespace Pool

variable {σ : Type} {jobs : List (Job σ)} {p q : Pool σ Unit} {trace more : List Sighting}

/-- What is to have been seen of the tasks that are called, by where they are. -/
def courses (p : Pool σ Unit) : List Course :=
  p.finished.map finishedCourse ++
    p.pendingBy Resume.course? Flight.course

theorem map_index_courses (p : Pool σ Unit) :
    p.courses.map Course.index = p.done ++ p.pending := by
  have hindex : (fun r => (Resume.course? r).map Course.index) = Resume.index? :=
    funext fun r => by cases r <;> rfl
  simp only [courses, pendingBy, List.map_append, List.map_filterMap, hindex, List.map_map, done,
    pending]
  rfl

/-- The events of a pool are those of the trace, which shows each task that is called as far as it
has come.  The tasks have started in their order, and the reports have counted up. -/
structure Told (jobs : List (Job σ)) (trace : List Sighting) (p : Pool σ Unit) : Prop where
  tracks : Tracks jobs p
  quiet : p.observer = .quiet
  events : p.events = trace.flatMap (Sighting.events (fun _ => none) jobs.length)
  started : ∀ s ∈ trace, s.index < p.started
  tasks : ∀ s ∈ trace, jobs[s.index]?.map Job.task = some s.task
  starts : trace.filterMap Sighting.start? = List.range p.started
  counts : trace.filterMap Sighting.count? = List.range' 1 p.finished.length
  shown : ∀ c ∈ p.courses, c.Shown jobs trace

/-- New sightings are all of one task, and take its course further. -/
theorem Told.extend (h : Told jobs trace p) (htracks : Tracks jobs q) (hquiet : q.observer = .quiet)
    (hstarted : p.started ≤ q.started) (c : Course) {rest : List Course}
    (hshown : ∀ d ∈ c :: rest, d.Shown jobs trace) (hnodup : ((c :: rest).map Course.index).Nodup)
    (hindex : c.index < q.started) (hmore : ∀ s ∈ more, s.index = c.index ∧ s.task = c.task)
    (hevents : q.events = p.events ++
      more.flatMap (Sighting.events (fun _ => none) jobs.length))
    (hstarts : List.range q.started = List.range p.started ++ more.filterMap Sighting.start?)
    (hcounts : List.range' 1 q.finished.length =
      List.range' 1 p.finished.length ++ more.filterMap Sighting.count?)
    (hcourses : q.courses.Perm ({ c with signs := c.signs ++ more.map Sighting.sign } :: rest)) :
    Told jobs (trace ++ more) q := by
  obtain ⟨hc, hrest⟩ := List.forall_mem_cons.1 hshown
  refine
    { tracks := htracks
      quiet := hquiet
      events := by rw [hevents, h.events, List.flatMap_append]
      started := List.forall_mem_append.2 ⟨fun s hs => Nat.lt_of_lt_of_le (h.started s hs) hstarted,
        fun s hs => (hmore s hs).1 ▸ hindex⟩
      tasks := List.forall_mem_append.2 ⟨h.tasks, fun s hs => by
        rw [(hmore s hs).1, (hmore s hs).2]
        exact hc.task⟩
      starts := by rw [List.filterMap_append, h.starts, hstarts]
      counts := by rw [List.filterMap_append, h.counts, hcounts]
      shown := fun d hd => ?_ }
  rcases List.mem_cons.1 (hcourses.mem_iff.1 hd) with rfl | hd
  · exact ⟨hc.task, by rw [signs_append_of_eq fun s hs => (hmore s hs).1, hc.signs]⟩
  · -- The sightings are not of any other task.
    have hne : d.index ≠ c.index := fun heq =>
      (List.nodup_cons.1 hnodup).1 (heq ▸ List.mem_map.2 ⟨d, hd, rfl⟩)
    exact ⟨(hrest d hd).task,
      by rw [signs_append_of_ne fun s hs => (hmore s hs).1 ▸ hne.symm, (hrest d hd).signs]⟩

theorem Told.nodup (h : Told jobs trace p) : (p.courses.map Course.index).Nodup := by
  rw [map_index_courses]
  exact h.tracks.nodup

/-- A task that is called goes on: its course is taken further, wherever it then is. -/
theorem Told.goOn (h : Told jobs trace p) (htracks : Tracks jobs q) (hquiet : q.observer = .quiet)
    (hstarted : q.started = p.started) {c : Course} {rest : List Course}
    (hfrom : p.courses.Perm (c :: rest)) (hmore : ∀ s ∈ more, s.index = c.index ∧ s.task = c.task)
    (hsigns : more.filterMap Sighting.start? = [])
    (hevents : q.events = p.events ++
      more.flatMap (Sighting.events (fun _ => none) jobs.length))
    (hcounts : List.range' 1 q.finished.length =
      List.range' 1 p.finished.length ++ more.filterMap Sighting.count?)
    (hto : q.courses.Perm ({ c with signs := c.signs ++ more.map Sighting.sign } :: rest)) :
    Told jobs (trace ++ more) q := by
  have hshown : ∀ d ∈ c :: rest, d.Shown jobs trace := fun d hd =>
    h.shown d (hfrom.mem_iff.2 hd)
  have hnodup : ((c :: rest).map Course.index).Nodup := (hfrom.map _).nodup h.nodup
  have hcalled : c.index < p.started := by
    refine h.tracks.lt_started (List.mem_append.1 ?_)
    rw [← map_index_courses]
    exact List.mem_map.2 ⟨c, hfrom.mem_iff.2 List.mem_cons_self, rfl⟩
  refine h.extend htracks hquiet (Nat.le_of_eq hstarted.symm) c hshown hnodup (hstarted ▸ hcalled)
    hmore hevents ?_ hcounts hto
  rw [hstarted, hsigns, List.append_nil]

/-! ## The parts of a move -/

theorem Told.wake (h : Told jobs trace p) {rest : List Resume} (hready : p.ready = .next :: rest) :
    Told jobs trace { p with ready := rest } where
  tracks := (invariant_tracks jobs).wake h.tracks hready
  quiet := h.quiet
  events := h.events
  started := h.started
  tasks := h.tasks
  starts := h.starts
  counts := h.counts
  shown := fun c hc => h.shown c (by
    rw [courses, pendingBy_of_ready Resume.course? Flight.course hready]
    exact hc)

theorem Told.logFailure (h : Told jobs trace p) {index : Nat} {task : Task} {began : Time}
    {error : Thrown} {rest : List Resume}
    (hready : p.ready = .logFailure index task began error :: rest) :
    ∃ more, Told jobs (trace ++ more)
      ({ p with ready := rest }.resume (.logFailure index task began error)) := by
  have hfrom : p.courses.Perm (⟨index, task, [.start]⟩ ::
      { p with ready := rest }.courses) := by
    rw [courses, pendingBy_of_ready Resume.course? Flight.course hready]
    exact List.perm_middle
  refine ⟨[⟨index, task, .failure error.display, p.finished.length, p.now⟩],
    h.goOn ((invariant_tracks jobs).logFailure h.tracks hready) h.quiet rfl hfrom
      (by simp) rfl rfl (List.append_nil _).symm ?_⟩
  exact ((perm_pendingBy_enqueue Resume.course? Flight.course _ _).append_left _).trans
    List.perm_middle

/-! ### Reports -/

theorem events_record (hquiet : p.observer = .quiet) (index : Nat) (result : TransferResult) :
    (p.record index result).events = p.events ++
      [.progress result.task.objectName result.succeeded (p.finished.length + 1) p.total
        p.now] := by
  rw [record_of_quiet hquiet]
  rfl

theorem range'_record (p : Pool σ Unit) (index : Nat) (result : TransferResult) :
    List.range' 1 (p.record index result).finished.length =
      List.range' 1 p.finished.length ++ [p.finished.length + 1] := by
  have hlength : (p.record index result).finished.length = p.finished.length + 1 :=
    List.length_append
  rw [hlength, List.range'_concat, Nat.one_mul, Nat.add_comm]

theorem perm_courses_record (p : Pool σ Unit) (index : Nat) (result : TransferResult) :
    (p.record index result).courses.Perm (⟨index, result.task, result.course⟩ :: p.courses) := by
  have hcourses : (p.record index result).courses =
      (p.finished ++ [(index, result)]).map finishedCourse ++
        p.pendingBy Resume.course? Flight.course := rfl
  rw [hcourses, List.map_append, List.append_assoc]
  exact List.perm_middle

theorem Told.conclude (h : Told jobs trace p) {index : Nat} {result : TransferResult}
    {rest : List Resume} (hready : p.ready = .conclude index result :: rest) :
    ∃ more, Told jobs (trace ++ more) ({ p with ready := rest }.record index result) := by
  have hfrom : p.courses.Perm
      (⟨index, result.task, result.spoken⟩ :: { p with ready := rest }.courses) := by
    rw [courses, pendingBy_of_ready Resume.course? Flight.course hready]
    exact List.perm_middle
  refine ⟨[⟨index, result.task, .report result.succeeded, p.finished.length + 1, p.now⟩],
    h.goOn ((invariant_tracks jobs).conclude h.tracks hready)
      (invariant_quiet.conclude h.quiet hready) rfl hfrom (by simp) rfl ?_
      (range'_record _ _ _) (perm_courses_record _ _ _)⟩
  rw [events_record (by exact h.quiet), ← h.tracks.total]
  rfl

/-- What is seen when an operation ends: its failure, and the report on it. -/
def endings (index : Nat) (result : TransferResult) (outcome : Except Thrown Unit)
    (completed : Nat) (time : Time) : List Sighting :=
  ((failureSigns outcome).map fun sign => ⟨index, result.task, sign, completed, time⟩) ++
    [⟨index, result.task, .report result.succeeded, completed + 1, time⟩]

theorem endings_spec (index : Nat) (task : Task) (outcome : Except Thrown Unit) (duration : Time)
    (completed total : Nat) (time : Time) :
    let result := TransferResult.ofOutcome task outcome duration
    let more := endings index result outcome completed time
    (∀ s ∈ more, s.index = index ∧ s.task = task) ∧ more.filterMap Sighting.start? = [] ∧
      more.filterMap Sighting.count? = [completed + 1] ∧
      .start :: more.map Sighting.sign = result.course ∧
      more.flatMap (Sighting.events (fun _ => none) total) = failureLines task outcome ++
        [.progress task.objectName result.succeeded (completed + 1) total time] := by
  cases outcome with
  | ok _ => exact ⟨by simp [endings, failureSigns, TransferResult.ofOutcome,
      TransferResult.success], rfl, rfl, rfl, rfl⟩
  | error error => exact ⟨by simp [endings, failureSigns, TransferResult.ofOutcome,
      TransferResult.failure], rfl, rfl, rfl, rfl⟩

theorem Told.land (h : Told jobs trace p) {due : Time} {flight : Flight σ}
    {rest : Timers (Flight σ)} (hready : p.ready = [])
    (htimers : p.timers = (due, flight) :: rest) :
    ∃ more, Told jobs (trace ++ more) ({ p with timers := rest }.land due flight) := by
  have hfrom : p.courses.Perm (flight.course :: { p with timers := rest }.courses) := by
    rw [courses, pendingBy_of_timers Resume.course? Flight.course hready htimers]
    exact List.perm_middle
  obtain ⟨hmore, hstarts, hcounts, hsigns, hevents⟩ := endings_spec flight.index flight.task
    (flight.finish p.world).1 (p.clock.between flight.began due) p.finished.length jobs.length due
  refine ⟨_, h.goOn ((invariant_tracks jobs).land h.tracks hready htimers)
    (invariant_quiet.land h.quiet hready htimers) rfl hfrom hmore hstarts ?_ ?_ ?_⟩
  · rw [hevents, Pool.land, events_record (by exact h.quiet), ← h.tracks.total,
      TransferResult.task_ofOutcome, ← List.append_assoc]
    rfl
  · rw [hcounts]
    exact range'_record _ _ _
  · have hcourse : flight.course.signs ++ _ = _ := hsigns
    rw [hcourse, Pool.land]
    refine (perm_courses_record _ _ _).trans ?_
    rw [TransferResult.task_ofOutcome]
    exact .refl _

/-! ### Calls -/

/-- What is seen when an operation is called: its start, and its failure if it throws at once. -/
def beginnings (index : Nat) (task : Task) (completed : Nat) (time : Time) :
    Launch σ → List Sighting
  | .throws error =>
    [⟨index, task, .start, completed, time⟩, ⟨index, task, .failure error.display, completed, time⟩]
  | _ => [⟨index, task, .start, completed, time⟩]

theorem beginnings_spec (index : Nat) (task : Task) (completed : Nat) (time : Time)
    (launch : Launch σ) :
    let more := beginnings index task completed time launch
    (∀ s ∈ more, s.index = index ∧ s.task = task) ∧ more.filterMap Sighting.start? = [index] ∧
      more.filterMap Sighting.count? = [] := by
  cases launch with
  | throws error => exact ⟨by simp [beginnings], rfl, rfl⟩
  | refused error => exact ⟨by simp [beginnings], rfl, rfl⟩
  | waits delay finish => exact ⟨by simp [beginnings], rfl, rfl⟩

theorem events_call (p : Pool σ Unit) (index : Nat) (job : Job σ) (rest : List (Nat × Job σ))
    (total : Nat) :
    (p.call index job rest).events = p.events ++
      (beginnings index job.task p.finished.length p.now (job.call p.world).1).flatMap
        (Sighting.events (fun _ => none) total) := by
  rw [Pool.call]
  cases (job.call p.world).1 with
  | throws error => exact List.append_assoc _ _ _
  | refused error => rfl
  | waits delay finish => rfl

theorem perm_courses_call (p : Pool σ Unit) (index : Nat) (job : Job σ)
    (rest : List (Nat × Job σ)) :
    (p.call index job rest).courses.Perm (⟨index, job.task, (beginnings index job.task
      p.finished.length p.now (job.call p.world).1).map Sighting.sign⟩ :: p.courses) := by
  have hmiddle : ∀ {pending : List Course} {c : Course},
      pending.Perm (c :: p.pendingBy Resume.course? Flight.course) →
      (p.finished.map finishedCourse ++ pending).Perm (c :: p.courses) :=
    fun h => (h.append_left _).trans List.perm_middle
  rw [Pool.call]
  cases (job.call p.world).1 with
  | throws error => exact hmiddle (perm_pendingBy_enqueue Resume.course? Flight.course _ _)
  | refused error => exact hmiddle (perm_pendingBy_enqueue Resume.course? Flight.course _ _)
  | waits delay finish => exact hmiddle (perm_pendingBy_wait Resume.course? Flight.course _ _ _)

theorem Told.call (h : Told jobs trace p) {index : Nat} {job : Job σ} {rest : List (Nat × Job σ)}
    (hu : p.unstarted = (index, job) :: rest) :
    ∃ more, Told jobs (trace ++ more) (p.call index job rest) := by
  have htracks := (invariant_tracks jobs).call h.tracks hu
  have hstarted := started_call h.tracks hu
  obtain ⟨rfl, hjob, -, -⟩ := h.tracks.next_job hu
  obtain ⟨hmore, hstarts, hcounts⟩ := beginnings_spec p.started job.task p.finished.length p.now
    (job.call p.world).1
  have hfresh : signs p.started trace = [] := by
    rw [signs, List.filter_eq_nil_iff.2 fun s hs => by
      simpa using Nat.ne_of_lt (h.started s hs)]
    rfl
  have hfinished : (p.call p.started job rest).finished = p.finished := by
    rw [Pool.call]
    cases (job.call p.world).1 <;> rfl
  refine ⟨_, h.extend htracks (invariant_quiet.call h.quiet hu) (by omega)
    ⟨p.started, job.task, []⟩ ?_ ?_ (by rw [hstarted]; exact Nat.lt_succ_self _) hmore
    (events_call p p.started job rest jobs.length) ?_ ?_ (perm_courses_call p p.started job rest)⟩
  · exact List.forall_mem_cons.2 ⟨⟨by rw [hjob]; rfl, hfresh⟩, h.shown⟩
  · rw [List.map_cons, map_index_courses]
    exact List.nodup_cons.2 ⟨fun hmem => Nat.lt_irrefl _
      (h.tracks.lt_started (List.mem_append.1 hmem)), h.tracks.nodup⟩
  · rw [hstarts, hstarted, List.range_succ]
  · rw [hcounts, hfinished, List.append_nil]

/-! ## Runs -/

theorem invariant_told (jobs : List (Job σ)) :
    Invariant fun p : Pool σ Unit => ∃ trace, Told jobs trace p where
  wake := fun ⟨trace, h⟩ hready => ⟨trace, h.wake hready⟩
  logFailure := fun ⟨_, h⟩ hready => (h.logFailure hready).elim fun _ hmore => ⟨_, hmore⟩
  conclude := fun ⟨_, h⟩ hready => (h.conclude hready).elim fun _ hmore => ⟨_, hmore⟩
  land := fun ⟨_, h⟩ hready htimers =>
    (h.land hready htimers).elim fun _ hmore => ⟨_, hmore⟩
  call := fun ⟨_, h⟩ hu => (h.call hu).elim fun _ hmore => ⟨_, hmore⟩

theorem told_start (clock : Clock) (world : σ) (jobs : List (Job σ)) (workers : Nat) :
    Told jobs [] (start clock world .quiet jobs workers) where
  tracks := tracks_start clock world .quiet jobs workers
  quiet := rfl
  events := rfl
  started := fun _ hs => absurd hs List.not_mem_nil
  tasks := fun _ hs => absurd hs List.not_mem_nil
  starts := by simp [start, Pool.started]
  counts := rfl
  shown := fun c hc => absurd hc (by simp [courses, pendingBy, start, List.filterMap_replicate,
    Resume.course?])

/-- At the end of a run all tasks have started and each report has been made. -/
theorem exists_chronicle_run (clock : Clock) (world : σ) (jobs : List (Job σ)) {workers : Nat}
    (hworkers : 0 < workers) :
    let final := (start clock world .quiet jobs workers).run
    ∃ trace, Chronicle jobs final.results trace ∧
      final.events = trace.flatMap (Sighting.events (fun _ => none) jobs.length) := by
  intro final
  have htracks := tracks_start clock world .quiet jobs workers
  have hbusy := busy_start clock world .quiet jobs hworkers
  obtain ⟨trace, h⟩ := (invariant_told jobs).run ⟨[], told_start clock world jobs workers⟩
  obtain ⟨-, hget⟩ := results_run htracks hbusy
  have hstarted : final.started = jobs.length := started_run htracks hbusy
  have hfinished : final.finished.length = jobs.length := length_finished_run htracks hbusy
  refine ⟨trace, ?_, h.events⟩
  refine
    { tasks := h.tasks
      starts := hstarted ▸ h.starts
      counts := hfinished ▸ h.counts
      courses := fun i r hr => ?_ }
  have hcourse : (⟨i, r.task, r.course⟩ : Course) ∈ final.courses :=
    List.mem_append_left _ (List.mem_map.2 ⟨(i, r), (hget i r).1 hr, rfl⟩)
  exact (h.shown _ hcourse).signs

end Pool

end BulkTransfer
