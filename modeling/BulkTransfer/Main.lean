import BulkTransfer.Worker.Rehearsal

/-!
# The command line

Rehearses the worker: the settings come from the environment, and the names of the local files, or
of the keys to download, from standard input, one on a line.
-/

namespace BulkTransfer

namespace CommandLine

/-- The variables that the worker reads. -/
def variableNames : List String :=
  ["TRANSFER_DIRECTION", "CONTAINER_NAME", "LOCAL_DIRECTORY", "KEY_PREFIX", "AWS_REGION",
    "S3_ENDPOINT", "S3_FORCE_PATH_STYLE", "BATCH_CONCURRENCY"]

/-- The processors that a rehearsal counts on. -/
def cpus : Nat := 8

/-- Text as a string, with the replacement character for a surrogate that stands alone. -/
def shown (t : Text) : String := String.ofList ((Text.codePoints t).map Char.ofNat)

def environment : IO Environment := do
  let values ← variableNames.mapM fun name => do return (name, ← IO.getEnv name)
  return values.filterMap fun (name, value) => value.map fun v =>
    (Text.ofString name, Text.ofString v)

def workingDirectory : IO Path := do
  return Path.resolve [] (Text.ofString ((← IO.getEnv "PWD").getD "/"))

/-- The lines of a stream, without the empty ones. -/
partial def readNames (input : IO.FS.Stream) (names : List Text) : IO (List Text) := do
  let line ← input.getLine
  if line.isEmpty then return names.reverse
  let name := Text.dropRightWhile (· == Text.unit '\n') (Text.ofString line)
  readNames input (if name.isEmpty then names else name :: names)

/-- Writes an event to the console. -/
def print (event : Event) : IO Unit :=
  match event with
  | .console .log t => IO.println (shown t)
  | .console _ t => IO.eprintln (shown t)
  | _ => pure ()

end CommandLine

end BulkTransfer

open BulkTransfer in
/-- Rehearses the worker and exits with its status. -/
def main : IO UInt32 := do
  let host : Host := ⟨CommandLine.cpus, ← CommandLine.environment, .binary⟩
  let names ← CommandLine.readNames (← IO.getStdin) []
  let finish := Rehearsal.run host (← CommandLine.workingDirectory) names
  finish.events.forM CommandLine.print
  return UInt32.ofNat finish.status
