import BulkTransfer.Worker.Progress
import BulkTransfer.Worker.Settings

/-!
# The worker

The worker moves what its environment says through a bucket service, shows progress and a summary,
and ends with status 0 when every object moved and 1 otherwise.
-/

namespace BulkTransfer

namespace Worker

def success : Nat := 0

def failure : Nat := 1

/-! ## Console lines -/

def openingLine : Event := .log "Parsing environment variables..."

def settingsLines (settings : Settings) (concurrency : Nat) : List Event :=
  let endpoint : Text := match settings.endpoint with
    | some address => ", endpoint: " ++ address
    | none => []
  [.log ("Worker started: " ++ settings.direction.word ++ " " ++ settings.localDirectory ++
      " <-> " ++ settings.container ++ "/" ++ settings.keyPrefix.getD []),
    .log ("Concurrency: " ++ Text.ofNat concurrency ++ ", region: " ++ settings.region ++ endpoint)]

def summaryLine (direction : Direction) (outcome : Outcome) : Event :=
  .log ("Batch " ++ direction.word ++ " complete: " ++ outcome.summary)

/-- A part of a failure's record; a result without a record has none to show. -/
def part (detail : Option FailureDetail) (field : FailureDetail → Text) : Text :=
  (detail.map field).getD "undefined"

def failureLine (r : TransferResult) : Event :=
  .error ("  " ++ r.task.objectName ++ ": [" ++ part r.detail FailureDetail.kind ++ "] " ++
    part r.detail FailureDetail.message)

/-- The lines about a value that ended the run. -/
def fatalLines (error : Thrown) : List Event :=
  if error.isError then
    [.error ("Worker error [" ++ error.responseCode ++ "]: " ++ error.display),
      .error "Error stack:"]
  else [.error "Worker error:"]

/-! ## The run -/

/-- What to move according to the settings. -/
def request (settings : Settings) (concurrency : Nat) : Request :=
  ⟨settings.container, settings.localDirectory, some (Number.ofInt concurrency),
    settings.keyPrefix⟩

/-- Moves what the settings say. -/
def transfer (host : Host) (settings : Settings) (concurrency : Nat) (s : Session) :
    Ran Session Outcome :=
  (Transfer.move settings.direction host Session.transport (request settings concurrency)
    Meter.observer s).map Outcome.ofResults

/-- A run with the settings from the environment, up to its outcome. -/
def attempt (host : Host) (s : Session) : Ran Session (Settings × Outcome) :=
  match Settings.ofEnvironment host.environment with
  | .error fault => .throw (.validation fault.message) s
  | .ok settings =>
    let (concurrency, warning) := Concurrency.ofHost host
    ((transfer host settings concurrency s).map fun outcome => (settings, outcome)).after
      (warning.toList.map Event.warn ++ settingsLines settings concurrency)

/-- What a run of the worker leaves. -/
structure Finish where
  status : Nat
  session : Session
  events : List Event

def run (host : Host) (s : Session) : Finish :=
  let attempted := attempt host s
  match attempted.outcome with
  | .error error =>
    ⟨failure, attempted.world, openingLine :: attempted.events ++ fatalLines error⟩
  | .ok (settings, outcome) =>
    { status := if outcome.failureCount = 0 then success else failure
      session := attempted.world
      events := openingLine :: attempted.events ++ [summaryLine settings.direction outcome] ++
        outcome.failures.map failureLine }

end Worker

end BulkTransfer
