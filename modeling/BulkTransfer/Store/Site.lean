import BulkTransfer.Store
import BulkTransfer.Timers
import BulkTransfer.Transfer

/-!
# Storing and fetching files in memory

A site is an in-process store beside local files.  Putting an object reads a file, getting one
makes a directory and writes a file; either waits for the object's delay first.  A call on the files
takes effect at once, but the operation that makes it is suspended around it, and others may take
steps (`Underway`).  In a batch none does: there an operation works without a pause once it no
longer waits, and its steps make up `work`.
-/

namespace BulkTransfer

/-- A store and the local files. -/
structure Site where
  store : Store
  files : Files

namespace Site

/-! ## The work of one operation -/

/-- Reads a file into the store. -/
def storeFile (task : Task) (s : Site) : Except Thrown Unit × Site :=
  match s.store.failureOf task.objectName with
  | some error => (.error error, s)
  | none =>
    match s.files.read task.localPath with
    | .error e => (.error e.thrown, s)
    | .ok content =>
      (.ok (), { s with store := s.store.seed task.container task.objectName content })

/-- Writes an object to a file, whose directory is made if need be. -/
def fetchFile (task : Task) (s : Site) : Except Thrown Unit × Site :=
  match s.store.failureOf task.objectName with
  | some error => (.error error, s)
  | none =>
    match s.store.object? task.container task.objectName with
    | none => (.error (Store.noObject task.container task.objectName), s)
    | some content =>
      match s.files.writeUnder task.localPath content with
      | (.error e, files) => (.error e.thrown, { s with files })
      | (.ok (), files) => (.ok (), { s with files })

/-- What an operation of a direction does once it no longer waits. -/
def work (direction : Direction) (task : Task) : Site → Except Thrown Unit × Site :=
  match direction with
  | .upload => storeFile task
  | .download => fetchFile task

/-- Does the work of an operation, which then is no longer in flight. -/
def land (direction : Direction) (task : Task) (s : Site) : Except Thrown Unit × Site :=
  let (outcome, s) := work direction task s
  (outcome, { s with store := s.store.leave })

def callOf (direction : Direction) (task : Task) : StoreCall :=
  match direction with
  | .upload => .put task.objectName
  | .download => .get task.objectName

/-- Calls an operation: it is logged and in flight. -/
def enter (direction : Direction) (task : Task) (s : Site) : Site :=
  { s with store := (s.store.log (callOf direction task)).enter }

/-- Calls an operation, which then waits, and works without a pause when its time has come. -/
def operation (direction : Direction) (task : Task) (s : Site) : Launch Site × Site :=
  (.waits (s.store.delayOf task.objectName) (land direction task), s.enter direction task)

/-! ## The store as a place to move objects -/

def create (container : Text) (s : Site) : Ran Site Unit :=
  let (outcome, store) := s.store.create container
  ⟨outcome, { s with store }, []⟩

def list (container : Text) (start : Option Text) (s : Site) : Ran Site (List Text) :=
  let (outcome, store) := s.store.list container start
  ⟨outcome, { s with store }, []⟩

/-- Moving objects between the store and the local files. -/
def transport : Transport Site :=
  { files := Site.files
    ensureContainer := create
    list
    put := operation .upload
    get := operation .download }

/-! ## The steps of an operation -/

/-- How far an operation has come.  It waits to begin, for its file to be read, to store what it has
read, for the directory of its file to be made or for its file to be written; or it has ended. -/
inductive Stage where
  | waiting
  | reading
  | storing (content : Bytes)
  | opening (content : Bytes)
  | writing (content : Bytes)
  | ended (outcome : Except Thrown Unit)

def Stage.outcome? : Stage → Option (Except Thrown Unit)
  | .ended outcome => some outcome
  | _ => none

/-- An operation begins by looking up whether its object fails and, to get it, what it holds. -/
def begin (task : Task) (s : Site) : Stage :=
  match s.store.failureOf task.objectName with
  | some error => .ended (.error error)
  | none =>
    match task.direction with
    | .upload => .reading
    | .download =>
      match s.store.object? task.container task.objectName with
      | none => .ended (.error (Store.noObject task.container task.objectName))
      | some content => .opening content

/-- What an operation does next: it begins, a call on the files takes effect, or it stores what it
has read. -/
def step (task : Task) (s : Site) : Stage → Stage × Site
  | .waiting => (begin task s, s)
  | .reading =>
    match s.files.read task.localPath with
    | .error e => (.ended (.error e.thrown), s)
    | .ok content => (.storing content, s)
  | .storing content =>
    (.ended (.ok ()), { s with store := s.store.seed task.container task.objectName content })
  | .opening content =>
    match s.files.makeDirectories (Path.parentText task.localPath) with
    | (.error e, files) => (.ended (.error e.thrown), { s with files })
    | (.ok _, files) => (.writing content, { s with files })
  | .writing content =>
    match s.files.write task.localPath content with
    | .error e => (.ended (.error e.thrown), s)
    | .ok files => (.ended (.ok ()), { s with files })
  | .ended outcome => (.ended outcome, s)

/-- How many steps an operation takes at most. -/
def stepLimit : Nat := 3

end Site

/-! ## Operations called together -/

/-- Operations under way together: the site, how far each operation has come, and those that have
ended, in the order in which they did, each with the place where it was called. -/
structure Underway where
  site : Site
  stages : List (Task × Site.Stage)
  ended : List ((Nat × Task) × Except Thrown Unit)

namespace Underway

/-- Operations that have been called and not begun. -/
def called (tasks : List Task) (s : Site) : Underway :=
  ⟨tasks.foldl (fun s task => s.enter task.direction task) s, tasks.map (·, .waiting), []⟩

/-- The operation at a place takes its next step, if it has one.  When it ends, it is no longer in
flight. -/
def advance (u : Underway) (i : Nat) : Underway :=
  match u.stages[i]? with
  | none => u
  | some (_, .ended _) => u
  | some (task, stage) =>
    match Site.step task u.site stage with
    | (.ended outcome, s) =>
      { site := { s with store := s.store.leave }
        stages := u.stages.set i (task, .ended outcome)
        ended := u.ended ++ [((i, task), outcome)] }
    | (next, s) => { u with site := s, stages := u.stages.set i (task, next) }

/-- Operations take steps, those at the places of a schedule one after another. -/
def run (u : Underway) (schedule : List Nat) : Underway := schedule.foldl advance u

/-- The outcomes of the operations that have ended, in the order in which they were called. -/
def outcomes (u : Underway) : List (Except Thrown Unit) := u.stages.filterMap (·.2.outcome?)

end Underway

namespace Site

/-- The timers of operations called at once, each with the place of its task. -/
def timersOf (s : Site) (tasks : List Task) : Timers (Nat × Task) :=
  tasks.zipIdx.foldl
    (fun timers (task, index) => timers.set (s.store.delayOf task.objectName) (index, task)) []

/-- The schedule in which each operation takes all of its steps before the next one begins. -/
def unbroken (order : List Nat) : List Nat := order.flatMap (List.replicate stepLimit)

/-- Calls operations together and waits for all.  Each begins when its timer fires, and works
without a pause; the outcomes are in the order of the tasks. -/
def together (tasks : List Task) (s : Site) : List (Except Thrown Unit) × Site :=
  let last := (Underway.called tasks s).run (unbroken ((timersOf s tasks).map (·.2.1)))
  (last.outcomes, last.site)

/-- Calls an operation when no other is under way. -/
def alone (task : Task) (s : Site) : Ran Site Unit :=
  let (outcome, s) := land task.direction task (s.enter task.direction task)
  ⟨outcome, s, []⟩

end Site

end BulkTransfer
