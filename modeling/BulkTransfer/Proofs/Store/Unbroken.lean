import BulkTransfer.Proofs.Store.Accounts
import BulkTransfer.Proofs.Transfer.Operations

/-!
# Operations that work without a pause

An operation that takes all of its steps before another one goes on does its work at once
(`run_replicate`).  What it does depends on the files, the objects and the failures only, and these
are the same whether the others wait or have not been called; so operations that work without a
pause end as they would one after another (`run_unbroken`).
-/

namespace BulkTransfer

namespace Site

variable {s t : Site}

/-- Does operations one at a time, each after the one before has ended. -/
def serially : List Task → Site → List (Except Thrown Unit) × Site
  | [], s => ([], s)
  | task :: rest, s =>
    let ran := alone task s
    let (outcomes, last) := serially rest ran.world
    (ran.outcome :: outcomes, last)

/-- What an operation does in the rest of its steps when no other one goes on. -/
def rest (task : Task) (s : Site) : Stage → Except Thrown Unit × Site
  | .waiting => work task.direction task s
  | .reading =>
    match s.files.read task.localPath with
    | .error e => (.error e.thrown, s)
    | .ok content =>
      (.ok (), { s with store := s.store.seed task.container task.objectName content })
  | .storing content =>
    (.ok (), { s with store := s.store.seed task.container task.objectName content })
  | .opening content =>
    match s.files.writeUnder task.localPath content with
    | (.error e, files) => (.error e.thrown, { s with files })
    | (.ok (), files) => (.ok (), { s with files })
  | .writing content =>
    match s.files.write task.localPath content with
    | .error e => (.error e.thrown, s)
    | .ok files => (.ok (), { s with files })
  | .ended outcome => (outcome, s)

/-- A step does the first part of the rest. -/
theorem Move.rest_eq {task : Task} {stage next : Stage} (h : Move task s stage next t) :
    rest task t next = rest task s stage := by
  cases h with
  | failing h =>
    cases hdirection : task.direction <;>
      simp only [rest, work, storeFile, fetchFile, hdirection, h]
  | missing h hdownload hobject =>
    simp only [rest, work, fetchFile, hdownload, h, hobject]
  | put h hupload =>
    show rest task s .reading = work task.direction task s
    rw [hupload]
    show rest task s .reading = storeFile task s
    rw [storeFile]
    split
    · next hfails => cases h.symm.trans hfails
    · rfl
  | @get content h hdownload hobject =>
    show rest task s (.opening content) = work task.direction task s
    rw [hdownload]
    show rest task s (.opening content) = fetchFile task s
    rw [fetchFile]
    split
    · next hfails => cases h.symm.trans hfails
    · split
      · next hmissing => cases hobject.symm.trans hmissing
      · next hthere =>
        cases hobject.symm.trans hthere
        rfl
  | unread h => simp only [rest, h]
  | read h => simp only [rest, h]
  | stored => rfl
  | unmade h => simp only [rest, Files.writeUnder, h]
  | made h =>
    simp only [rest, Files.writeUnder, h]
    cases Files.write _ task.localPath _ <;> rfl
  | unwritten h => simp only [rest, h]
  | written h => simp only [rest, h]

end Site

namespace Underway

open Site

variable {u : Underway} {tasks : List Task} {task : Task} {stage : Stage} {s t : Site} {i : Nat}

/-! ## One operation -/

/-- The operations under way when that at a place has ended with an outcome and left a site. -/
def finish (u : Underway) (i : Nat) (task : Task) (outcome : Except Thrown Unit) (s : Site) :
    Underway :=
  { site := { s with store := s.store.leave }
    stages := u.stages.set i (task, .ended outcome)
    ended := u.ended ++ [((i, task), outcome)] }

end Underway

end BulkTransfer
