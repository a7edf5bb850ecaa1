import BulkTransfer.Naming.KeyPrefix
import BulkTransfer.Path
import BulkTransfer.Ran
import BulkTransfer.Task

/-!
# The tasks of a container

Each object of a container is a task to download.  With a key prefix only the objects under it are
listed, and their local names go without it.  Names that end in a slash stand for folders and are
skipped.  The tasks are in the order of their object names, each name once.
-/

namespace BulkTransfer

namespace Enumeration

def cannotListContainer (container : Text) (error : Thrown) : Thrown :=
  .enumeration ("Cannot list objects in container '" ++ container ++ "': " ++ error.display) error

def isFolderMarker (name : Text) : Bool := name.getLast? == some Text.slash

/-- An object name without a key prefix in normal form. -/
def localName (keyPrefix name : Text) : Text :=
  if keyPrefix.isPrefixOf name then name.drop keyPrefix.length else name

/-- The task that downloads an object into a directory. -/
def downloadTask (container : Text) (directory : Path) (keyPrefix name : Text) : Task :=
  ⟨container, name, Path.text (Path.join directory (localName keyPrefix name)), .download⟩

/-- The tasks that download listed objects. -/
def ofNames (container : Text) (directory : Path) (keyPrefix : Text) (names : List Text) :
    List Task :=
  ((names.eraseDups.filter fun name => !isFolderMarker name).map
    (downloadTask container directory keyPrefix)).mergeSort fun a b => a.objectName ≤ b.objectName

/-- A call that lists the objects of a container, possibly those under a key prefix only. -/
abbrev Lister (σ : Type) := Text → Option Text → σ → Ran σ (List Text)

/-- The key prefix that a listing call is given: none in place of the empty one. -/
def listingPrefix (keyPrefix : Text) : Option Text :=
  if keyPrefix.isEmpty then none else some keyPrefix

/-- The tasks that download a container into a directory. -/
def ofContainer {σ : Type} (list : Lister σ) (cwd : Path) (container directory : Text)
    (keyPrefix : Option Text) (world : σ) : Ran σ (List Task) :=
  let keys := KeyPrefix.normalize keyPrefix
  let listed := list container (listingPrefix keys) world
  match listed.outcome with
  | .error error =>
    ⟨.error (cannotListContainer container error), listed.world, listed.events⟩
  | .ok names =>
    ⟨.ok (ofNames container (Path.resolve cwd directory) keys names), listed.world, listed.events⟩

end Enumeration

end BulkTransfer
