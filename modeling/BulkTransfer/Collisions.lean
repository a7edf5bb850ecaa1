import BulkTransfer.OrderedMap
import BulkTransfer.Path
import BulkTransfer.Task

/-!
# Tasks that share a local path

Object names that differ may resolve to the same file.  The first task of a path owns it; each later
one is listed under its object name with the name of the owner.
-/

namespace BulkTransfer

namespace Collisions

/-- The owners of paths so far, and the object names that came too late. -/
structure Claims where
  owners : OrderedMap Path Text
  late : OrderedMap Text Text

/-- The claims after one more task. -/
def Claims.add (cwd : Path) (claims : Claims) (task : Task) : Claims :=
  let path := Path.resolve cwd task.localPath
  match claims.owners.find? path with
  | none => { claims with owners := claims.owners.insert path task.objectName }
  | some owner => { claims with late := claims.late.insert task.objectName owner }

/-- The object names whose path an earlier task owns, each with the owner's name. -/
def find (cwd : Path) (tasks : List Task) : OrderedMap Text Text :=
  (tasks.foldl (Claims.add cwd) ⟨.empty, .empty⟩).late

end Collisions

end BulkTransfer
