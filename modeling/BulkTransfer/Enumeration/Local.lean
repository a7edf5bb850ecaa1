import BulkTransfer.Files.Access
import BulkTransfer.Naming.KeyPrefix
import BulkTransfer.Ran
import BulkTransfer.Task

/-!
# The tasks of a local directory

Each regular file directly in a directory, and each link to one, is a task to upload; directories
in it are not entered.  A link that leads nowhere is skipped with a warning.  The tasks are in the
order of their object names.
-/

namespace BulkTransfer

namespace Enumeration

def sorted (tasks : List Task) : List Task := tasks.mergeSort fun a b => a.objectName ≤ b.objectName

def cannotList (directory : Text) (e : FileError) : Thrown :=
  .enumeration ("Cannot list directory '" ++ directory ++ "': " ++ e.thrown.display) e.thrown

def notDirectory (directory : Text) : Thrown :=
  .enumeration ("Path '" ++ directory ++ "' is not a directory") .undefined

/-- The warning about a link that leads nowhere. -/
def skipped (path : Text) (e : FileError) : Event :=
  .warn ("Skipping unreadable link " ++ path ++ ": " ++ e.thrown.display)

/-- Whether an entry of a directory is to be uploaded, or the error of following it. -/
def isSource (files : Files) (path : Text) : Entry → Except FileError Bool
  | .file _ => .ok true
  | .directory => .ok false
  | .special => .ok false
  | .link _ =>
    match files.stat path with
    | .ok (.file _) => .ok true
    | .ok _ => .ok false
    | .error e => .error e

/-- Where the tasks of a local directory come from and go to. -/
structure Source where
  container : Text
  directory : Path
  keyPrefix : Option Text

namespace Source

/-- The text of the path of a name in the directory. -/
def pathOf (s : Source) (name : Text) : Text := Path.text (Path.join s.directory name)

/-- The task that uploads a name of the directory. -/
def task (s : Source) (name : Text) : Task :=
  ⟨s.container, KeyPrefix.objectName s.keyPrefix name, s.pathOf name, .upload⟩

/-- The task of an entry of the directory, if it is one to upload. -/
def task? (s : Source) (files : Files) (entry : Text × Entry) : Option Task :=
  match isSource files (s.pathOf entry.1) entry.2 with
  | .ok true => some (s.task entry.1)
  | _ => none

/-- The warning about an entry of the directory, if it leads nowhere. -/
def warning? (s : Source) (files : Files) (entry : Text × Entry) : Option Event :=
  match isSource files (s.pathOf entry.1) entry.2 with
  | .ok _ => none
  | .error e => some (skipped (s.pathOf entry.1) e)

end Source

def entries (files : Files) (directory : Text) : Except Thrown (List (Text × Entry)) :=
  let absolute := Path.text (Path.resolve files.cwd directory)
  match files.stat absolute with
  | .error e => .error (cannotList directory e)
  | .ok .directory =>
    match files.scan absolute with
    | .error e => .error (cannotList directory e)
    | .ok found => .ok found
  | .ok _ => .error (notDirectory directory)

/-- The tasks that upload a local directory. -/
def ofDirectory {σ : Type} (files : Files) (container directory : Text) (keyPrefix : Option Text)
    (world : σ) : Ran σ (List Task) :=
  match entries files directory with
  | .error error => .throw error world
  | .ok found =>
    let source : Source := ⟨container, Path.resolve files.cwd directory, keyPrefix⟩
    { outcome := .ok (sorted (found.filterMap (source.task? files)))
      world
      events := found.filterMap (source.warning? files) }

end Enumeration

end BulkTransfer
