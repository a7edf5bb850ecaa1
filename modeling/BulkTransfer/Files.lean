import BulkTransfer.OrderedMap
import BulkTransfer.Path

/-!
# Files

The local files are a map from paths to entries: regular files, directories, symbolic links and
special entries.  The root is always a directory and has no entry of its own.  Names are kept as
their bytes are read, so texts with the same bytes name the same entry.  Every name is a text, an
entry has one name only (there are no hard links), and whoever asks may read, write and list it
(there are no permissions).  `locate` follows a path through links, as opening it would, and gives
the place where its last component is or would be; `descend` makes the directories on the way.
-/

namespace BulkTransfer

/-- What stands at a path. -/
inductive Entry where
  | file (content : Bytes)
  | directory
  | link (target : Text)
  | special
deriving DecidableEq

/-- The local files, as a process with a working directory sees them. -/
structure Files where
  cwd : Path
  entries : OrderedMap Path Entry

/-- Why a path cannot be followed or used. -/
inductive FileFault where
  | noEntry
  | notDirectory
  | isDirectory
  | taken
  | linkLoop
  | nameTooLong
deriving DecidableEq

namespace Files

/-! ## Entries -/

/-- The entry at a path, without following it. -/
def entry? (f : Files) (path : Path) : Option Entry :=
  if path = [] then some .directory else f.entries.find? path

def set (f : Files) (path : Path) (entry : Entry) : Files :=
  { f with entries := f.entries.insert path entry }

/-- The names in a directory, each with its entry. -/
def children (f : Files) (directory : Path) : List (Text × Entry) :=
  f.entries.pairs.filterMap fun (path, entry) =>
    match path.getLast? with
    | some name => if path.dropLast = directory then some (name, entry) else none
    | none => none

def remove (f : Files) (path : Path) : Files :=
  { f with entries := ⟨f.entries.pairs.filter fun (p, _) => !path.isPrefixOf p⟩ }

/-! ## Following a path -/

/-- The longest name an entry may have, in bytes. -/
def nameLimit : Nat := 255

/-- The longest text a path may have, in bytes. -/
def pathLimit : Nat := 4095

/-- How many links are followed on the way to one entry. -/
def linkLimit : Nat := 40

/-- What a path is followed for: to use what stands there, or to open a file, which is made unless
it is there. -/
inductive Aim where
  | use
  | make
deriving DecidableEq

/-- How far a path leads before the next link: to a place, to a fault, or to a link after which the
way goes on from another directory. -/
inductive Walk where
  | arrived (path : Path)
  | failed (fault : FileFault)
  | detour (base : Path) (rest : List Text)

/-- Whether components are left of which none is a name: a slash ends the path. -/
def endsInSlash (rest : List Text) : Bool := !rest.isEmpty && rest.all List.isEmpty

def isTooLong (name : Text) : Bool := nameLimit < (Text.utf8 name).length

/-- The names and other components in the text of a path or of a link's target, as the files keep
them. -/
def pieces (t : Text) : List Text := Text.split Text.slash (Text.stored t)

def isOverlong (t : Text) : Bool := pathLimit < (Text.utf8 t).length

/-- The directory from which a link in a directory is followed. -/
def startOf (base : Path) (target : Text) : Path := if Path.isAbsolute target then [] else base

/-- Follows components up to the next link.  A file cannot be made under a name with a slash behind
it. -/
def walk (f : Files) (aim : Aim) (base : Path) : List Text → Walk
  | [] => .arrived base
  | name :: rest =>
    if name = [] ∨ name = Path.dot then walk f aim base rest
    else if name = Path.dots then walk f aim base.dropLast rest
    else if aim = .make ∧ endsInSlash rest then .failed .isDirectory
    else if isTooLong name then .failed .nameTooLong
    else
      match f.entry? (base ++ [name]) with
      | some .directory => walk f aim (base ++ [name]) rest
      | some (.link target) =>
        .detour (startOf base target) (pieces target ++ rest)
      | some _ => if rest.isEmpty then .arrived (base ++ [name]) else .failed .notDirectory
      | none => if rest.isEmpty then .arrived (base ++ [name]) else .failed .noEntry

/-- Follows components over less than so many links, and tells how many of these are left. -/
def follow (f : Files) (aim : Aim) : Nat → Path → List Text → Except FileFault (Path × Nat)
  | 0, _, _ => .error .linkLoop
  | links + 1, base, rest =>
    match f.walk aim base rest with
    | .arrived path => .ok (path, links)
    | .failed fault => .error fault
    | .detour base rest => follow f aim links base rest

/-- The components from the root that the text of a path names. -/
def components (f : Files) (t : Text) : List Text :=
  (if Path.isAbsolute t then [] else f.cwd) ++ pieces t

/-- The place that components lead to from the root. -/
def place (f : Files) (aim : Aim) (rest : List Text) : Except FileFault Path :=
  (f.follow aim (linkLimit + 1) [] rest).map Prod.fst

/-- The place that the text of a path leads to; empty text leads nowhere. -/
def locate (f : Files) (aim : Aim) (t : Text) : Except FileFault Path :=
  if t = [] then .error .noEntry
  else if isOverlong t then .error .nameTooLong
  else f.place aim (f.components t)

/-! ## Making directories -/

/-- The fault of an entry that is no directory where one is asked for: it is in the way of the last
component, and no step towards any other. -/
def obstacle (rest : List Text) : FileFault := if rest.isEmpty then .taken else .notDirectory

/-- Goes down components over at most so many links and makes the directories that are missing,
except behind a link.  What was made before a fault stays. -/
def descend (f : Files) (links : Nat) (base : Path) : List Text → Except FileFault Path × Files
  | [] => (.ok base, f)
  | name :: rest =>
    if name = [] ∨ name = Path.dot then descend f links base rest
    else if name = Path.dots then descend f links base.dropLast rest
    else if isTooLong name then (.error .nameTooLong, f)
    else
      match f.entry? (base ++ [name]) with
      | none => descend (f.set (base ++ [name]) .directory) links (base ++ [name]) rest
      | some .directory => descend f links (base ++ [name]) rest
      | some (.link target) =>
        match f.follow .use links (startOf base target) (pieces target) with
        | .error fault => (.error fault, f)
        | .ok (place, links) =>
          match f.entry? place with
          | some .directory => descend f links place rest
          | some _ => (.error (obstacle rest), f)
          | none => (.error .noEntry, f)
      | some _ => (.error (obstacle rest), f)

end Files

end BulkTransfer
