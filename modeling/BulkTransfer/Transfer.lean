import BulkTransfer.Collisions
import BulkTransfer.Dispatch
import BulkTransfer.Enumeration.Local
import BulkTransfer.Enumeration.Remote
import BulkTransfer.Outcome

/-!
# Moving directories and containers

`upload` moves every file of a local directory into a container, `download` every object of a
container into a local directory.  Either throws before any task is tried, or gives one result for
each task.  A download task is refused when an earlier task owns its path or when its path is not
inside the destination.
-/

namespace BulkTransfer

/-- What moving objects needs of a world: its local files, and the calls on its storage. -/
structure Transport (σ : Type) where
  files : σ → Files
  ensureContainer : Text → σ → Ran σ Unit
  list : Enumeration.Lister σ
  put : Task → σ → Launch σ × σ
  get : Task → σ → Launch σ × σ

/-- What to move: a container, a local directory, how many at a time and under which key prefix. -/
structure Request where
  container : Text
  directory : Text
  concurrency : Option Number
  keyPrefix : Option Text

/-- Why a request is refused. -/
inductive RequestFault where
  | blankContainer
  | concurrency (n : Number)
  | keyPrefix (fault : KeyPrefixFault)

def RequestFault.thrown : RequestFault → Thrown
  | .blankContainer => .configuration "Container name is required"
  | .concurrency n => Concurrency.notFinite n
  | .keyPrefix fault => .configuration fault.message

namespace Transfer

variable {σ τ : Type}

/-! ## Checking a request -/

/-- The first fault of a container name, a concurrency and a key prefix. -/
def fault? (container : Text) (concurrency : Number) (keyPrefix : Option Text) :
    Option RequestFault :=
  if (Text.trim container).isEmpty then some .blankContainer
  else if !concurrency.isFinite then some (.concurrency concurrency)
  else (keyPrefix.bind KeyPrefix.fault?).map .keyPrefix

/-- The concurrency of a request, with the warnings that the host's default brings. -/
def concurrencyOf (host : Host) (request : Request) : Number × List Event :=
  match request.concurrency with
  | some n => (n, [])
  | none =>
    let (n, warning) := Concurrency.ofHost host
    (Number.ofInt n, warning.toList.map Event.warn)

/-- Checks a request and gives its concurrency. -/
def check (host : Host) (request : Request) (world : σ) : Ran σ Number :=
  let (n, warnings) := concurrencyOf host request
  match fault? request.container n request.keyPrefix with
  | some fault => (Ran.throw fault.thrown world).after warnings
  | none => (Ran.value n world).after warnings

/-! ## Uploads -/

def uploadLine (request : Request) (count : Nat) : Event :=
  .log ("Uploading " ++ Text.ofNat count ++ " files from " ++ request.directory ++
    " to container " ++ request.container)

def uploadJob (transport : Transport σ) (task : Task) : Job σ := ⟨task, transport.put task⟩

def upload (host : Host) (transport : Transport σ) (request : Request) (observer : Observer τ)
    (world : σ) : Ran σ (List TransferResult) :=
  (check host request world).andThen fun concurrency world =>
  (transport.ensureContainer request.container world).andThen fun _ world =>
  (Enumeration.ofDirectory (transport.files world) request.container request.directory
      request.keyPrefix world).andThen fun tasks world =>
  let jobs := tasks.map (uploadJob transport)
  (Dispatch.run host.clock jobs concurrency observer world).toRan.after
    [uploadLine request tasks.length]

/-! ## Downloads -/

def downloadLine (request : Request) (count : Nat) : Event :=
  .log ("Downloading " ++ Text.ofNat count ++ " objects from container " ++ request.container ++
    " to " ++ request.directory)

/-- The refusal of a task whose path an earlier task owns. -/
def collision (task : Task) (owner : Text) : Thrown :=
  .validation ("Object '" ++ task.objectName ++ "' resolves to local path '" ++ task.localPath ++
    "' already used by '" ++ owner ++ "'")

/-- Why a download task is refused, if it is. -/
def refusal? (cwd : Path) (destination : Text) (collisions : OrderedMap Text Text) (task : Task) :
    Option Thrown :=
  match collisions.find? task.objectName with
  | some owner => some (collision task owner)
  | none =>
    (Path.escape? cwd destination task.localPath).map fun escape => .validation escape.message

/-- The job that downloads one object, unless it is refused. -/
def downloadJob (transport : Transport σ) (cwd : Path) (destination : Text)
    (collisions : OrderedMap Text Text) (task : Task) : Job σ :=
  { task
    call := fun world =>
      match refusal? cwd destination collisions task with
      | some error => (.refused error, world)
      | none => transport.get task world }

def download (host : Host) (transport : Transport σ) (request : Request) (observer : Observer τ)
    (world : σ) : Ran σ (List TransferResult) :=
  (check host request world).andThen fun concurrency world =>
  let cwd := (transport.files world).cwd
  (Enumeration.ofContainer transport.list cwd request.container request.directory
      request.keyPrefix world).andThen fun tasks world =>
  let jobs := tasks.map
    (downloadJob transport cwd request.directory (Collisions.find cwd tasks))
  (Dispatch.run host.clock jobs concurrency observer world).toRan.after
    [downloadLine request tasks.length]

def move (direction : Direction) (host : Host) (transport : Transport σ) (request : Request)
    (observer : Observer τ) (world : σ) : Ran σ (List TransferResult) :=
  match direction with
  | .upload => upload host transport request observer world
  | .download => download host transport request observer world

/-! ## Repeating -/

/-- The job that carries out a task again, without further checks. -/
def plainJob (transport : Transport σ) (task : Task) : Job σ :=
  { task
    call := match task.direction with
      | .upload => transport.put task
      | .download => transport.get task }

/-- Runs tasks again. -/
def retry (host : Host) (transport : Transport σ) (tasks : List Task) (concurrency : Number)
    (observer : Observer τ) (world : σ) : Ran σ (List TransferResult) :=
  (Dispatch.run host.clock (tasks.map (plainJob transport)) concurrency observer world).toRan

end Transfer

end BulkTransfer
