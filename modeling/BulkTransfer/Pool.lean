import BulkTransfer.Pool.Job
import BulkTransfer.Timers

/-!
# The worker pool

A fixed number of workers share a list of jobs.  A worker takes the next job and calls its
operation; when that has ended it counts the task, tells the observer and takes the next job.
Ready workers go on in the order of a queue; when none is ready, the next timer fires and the time
moves to it.  `step?` is one such move and `run` makes moves until none is left.  `load` bounds the
number of moves: it falls with every one.
-/

namespace BulkTransfer

/-- An operation that waits for its timer. -/
structure Flight (σ : Type) where
  index : Nat
  task : Task
  began : Time
  finish : σ → Except Thrown Unit × σ

/-- What a ready worker does next: take a job, log the failure of a refused task, or conclude a
task. -/
inductive Resume where
  | next
  | logFailure (index : Nat) (task : Task) (began : Time) (error : Thrown)
  | conclude (index : Nat) (result : TransferResult)

/-- How many moves a ready worker may still cause by itself. -/
def Resume.load : Resume → Nat
  | .next => 1
  | .conclude _ _ => 2
  | .logFailure _ _ _ _ => 3

/-- How many moves a queue of ready workers may still cause by itself. -/
def Resume.loads : List Resume → Nat
  | [] => 0
  | r :: rest => r.load + loads rest

/-- The state of a pool. -/
structure Pool (σ τ : Type) where
  world : σ
  observer : Observer τ
  total : Nat
  clock : Clock
  now : Time
  unstarted : List (Nat × Job σ)
  ready : List Resume
  timers : Timers (Flight σ)
  finished : List (Nat × TransferResult)
  events : List Event
  peak : Nat

namespace Pool

variable {σ τ : Type}

/-! ## Moves -/

def failureLine (task : Task) (error : Thrown) : Event :=
  .error ("Failed to " ++ task.direction.word ++ " " ++ task.container ++ "/" ++ task.objectName ++
    ": " ++ error.display)

/-- The line about a task that ended, if it failed. -/
def failureLines (task : Task) : Except Thrown Unit → List Event
  | .ok _ => []
  | .error error => [failureLine task error]

def emit (p : Pool σ τ) (events : List Event) : Pool σ τ := { p with events := p.events ++ events }

def enqueue (p : Pool σ τ) (r : Resume) : Pool σ τ := { p with ready := p.ready ++ [r] }

def wait (p : Pool σ τ) (delay : Time) (flight : Flight σ) : Pool σ τ :=
  let timers := p.timers.set (p.clock.after p.now delay) flight
  { p with timers, peak := max p.peak timers.length }

/-- The pool after the call of a job's operation, with the jobs that are left. -/
def called (p : Pool σ τ) (job : Job σ) (rest : List (Nat × Job σ)) : Pool σ τ :=
  { p with unstarted := rest, world := (job.call p.world).2 }.emit
    [.started job.task.objectName p.now]

/-- The worker of a called operation stands in the queue again, or waits. -/
def launched (p : Pool σ τ) (index : Nat) (task : Task) : Launch σ → Pool σ τ
  | .throws error =>
    (p.emit [failureLine task error]).enqueue (.conclude index (.failure task error 0))
  | .refused error => p.enqueue (.logFailure index task p.now error)
  | .waits delay finish => p.wait delay ⟨index, task, p.now, finish⟩

/-- A worker takes the next job and calls its operation; without a job it stops. -/
def takeNext (p : Pool σ τ) : Pool σ τ :=
  match p.unstarted with
  | [] => p
  | (index, job) :: rest => (p.called job rest).launched index job.task (job.call p.world).1

/-- The events of a notice; a failing observer gets a warning and changes nothing else. -/
def noticeEvents (notice : Notice) : List Event :=
  notice.events ++
    match notice.error with
    | none => []
    | some error => [.warn ("Progress callback failed: " ++ error.display)]

/-- A task counts as finished and the observer hears of it. -/
def record (p : Pool σ τ) (index : Nat) (result : TransferResult) : Pool σ τ :=
  let finished := p.finished ++ [(index, result)]
  let (notice, state) :=
    p.observer.react ⟨result, finished.length, p.total, p.now⟩ p.observer.state
  { p with finished, observer := { p.observer with state } }.emit (noticeEvents notice)

/-- A ready worker goes on. -/
def resume (p : Pool σ τ) : Resume → Pool σ τ
  | .next => p.takeNext
  | .logFailure index task began error =>
    (p.emit [failureLine task error]).enqueue
      (.conclude index (.failure task error (p.clock.between began p.now)))
  | .conclude index result => (p.record index result).takeNext

/-- A timer fires: its operation does its work, and the worker goes on. -/
def fire (p : Pool σ τ) (due : Time) (flight : Flight σ) : Pool σ τ :=
  let (outcome, world) := flight.finish p.world
  let landed := { p with world, now := due }.emit (failureLines flight.task outcome)
  let result := .ofOutcome flight.task outcome (p.clock.between flight.began due)
  (landed.record flight.index result).takeNext

/-- One move: the first ready worker, or else the next timer. -/
def step? (p : Pool σ τ) : Option (Pool σ τ) :=
  match p.ready, p.timers with
  | r :: rest, _ => some ({ p with ready := rest }.resume r)
  | [], (due, flight) :: rest => some ({ p with timers := rest }.fire due flight)
  | [], [] => none

/-! ## Runs -/

/-- A bound on the moves that are left. -/
def load (p : Pool σ τ) : Nat :=
  4 * p.unstarted.length + Resume.loads p.ready + 2 * p.timers.length

/-- The pool after at most so many moves. -/
def drive : Nat → Pool σ τ → Pool σ τ
  | 0, p => p
  | moves + 1, p =>
    match p.step? with
    | none => p
    | some next => drive moves next

def run (p : Pool σ τ) : Pool σ τ := drive p.load p

/-- A pool of idle workers before its first move. -/
def start (clock : Clock) (world : σ) (observer : Observer τ) (jobs : List (Job σ))
    (workers : Nat) : Pool σ τ :=
  { world
    observer
    total := jobs.length
    clock
    now := 0
    unstarted := jobs.zipIdx.map fun (job, index) => (index, job)
    ready := List.replicate workers .next
    timers := []
    finished := []
    events := []
    peak := 0 }

def results (p : Pool σ τ) : List TransferResult :=
  (List.range p.total).filterMap fun index => p.finished.lookup index

end Pool

end BulkTransfer
