import BulkTransfer.Worker

/-!
# Rehearsals

A rehearsal runs the worker without a network.  It is told names: the files to upload, or the keys
to download.  The bucket service of a rehearsal accepts every command, and all content is empty.
-/

namespace BulkTransfer

namespace Rehearsal

/-- A service that has nothing to say and accepts everything. -/
def agreeable : Remote :=
  { heads := []
    creations := []
    pages := []
    puts := .empty
    gets := .empty
    exhausted := none }

def emptyObject : Reply := .answered { Answer.plain with body := .bytes [] }

/-- A session whose named files are there to be uploaded. -/
def ofFiles (cwd : Path) (names : List Text) : Session :=
  { files := .ofEntries cwd (names.map fun name => (name, .file []))
    remote := agreeable
    sent := [] }

/-- A session whose bucket lists the named keys. -/
def ofKeys (cwd : Path) (names : List Text) : Session :=
  let page : Page := ⟨names.map some, false, none⟩
  { files := .ofEntries cwd []
    remote :=
      { agreeable with
        pages := [.answered { Answer.plain with page }]
        gets := .ofList (names.map fun name => (name, emptyObject)) }
    sent := [] }

/-- The session that fits the direction in the environment. -/
def session (env : Environment) (cwd : Path) (names : List Text) : Session :=
  match Settings.ofEnvironment env with
  | .ok settings =>
    match settings.direction with
    | .upload => ofFiles cwd names
    | .download => ofKeys cwd names
  | .error _ => ofFiles cwd names

/-- Runs the worker in a rehearsal. -/
def run (host : Host) (cwd : Path) (names : List Text) : Worker.Finish :=
  Worker.run host (session host.environment cwd names)

end Rehearsal

end BulkTransfer
