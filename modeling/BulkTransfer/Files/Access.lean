import BulkTransfer.Files
import BulkTransfer.Text.Quoted
import BulkTransfer.Thrown

/-!
# Using files

The calls on local files: asking for the entry at a path, listing a directory, reading, writing and
making directories.  A call that fails says which call it was, on which path as it is read back, and
why.
-/

namespace BulkTransfer

inductive FileCall where
  | stat
  | scan
  | openFile
  | makeDirectory
  | read
deriving DecidableEq

/-- Why a call failed: its path cannot be one, for it holds a zero, or a fault met the call, which
names its path unless it reads an open file. -/
inductive FileError where
  | unusable (path : Text)
  | failed (fault : FileFault) (call : FileCall) (path : Option Text)
deriving DecidableEq

def FileFault.code : FileFault → Text
  | .noEntry => "ENOENT"
  | .notDirectory => "ENOTDIR"
  | .isDirectory => "EISDIR"
  | .taken => "EEXIST"
  | .linkLoop => "ELOOP"
  | .nameTooLong => "ENAMETOOLONG"

def FileFault.text : FileFault → Text
  | .noEntry => "no such file or directory"
  | .notDirectory => "not a directory"
  | .isDirectory => "illegal operation on a directory"
  | .taken => "file already exists"
  | .linkLoop => "too many symbolic links encountered"
  | .nameTooLong => "name too long"

def FileCall.name : FileCall → Text
  | .stat => "stat"
  | .scan => "scandir"
  | .openFile => "open"
  | .makeDirectory => "mkdir"
  | .read => "read"

namespace FileError

def message : FileError → Text
  | .unusable path =>
    "The argument 'path' must be a string, Uint8Array, or URL without null bytes. Received " ++
      Text.excerpt (Text.quotedLines path)
  | .failed fault call path =>
    let place : Text := match path with
      | some path => " '" ++ Text.stored path ++ "'"
      | none => []
    fault.code ++ ": " ++ fault.text ++ ", " ++ call.name ++ place

def name : FileError → Text
  | .unusable _ => "TypeError"
  | .failed _ _ _ => Plain.general.name

def code : FileError → Text
  | .unusable _ => "ERR_INVALID_ARG_VALUE"
  | .failed fault _ _ => fault.code

def thrown (e : FileError) : Thrown :=
  .plain .general ⟨e.name, e.message, some (.text e.code), none⟩

end FileError

namespace Files

/-- Whether text can be a path: it holds no zero. -/
def isUsable (t : Text) : Bool := !t.contains 0

/-- The place that a path leads to, for a call. -/
def locateFor (f : Files) (call : FileCall) (aim : Aim) (t : Text) : Except FileError Path :=
  if isUsable t then (f.locate aim t).mapError fun fault => .failed fault call (some t)
  else .error (.unusable t)

def stat (f : Files) (t : Text) : Except FileError Entry :=
  match f.locateFor .stat .use t with
  | .error e => .error e
  | .ok path =>
    match f.entry? path with
    | some entry => .ok entry
    | none => .error (.failed .noEntry .stat (some t))

/-- The names in a directory with their entries, in descending order. -/
def scan (f : Files) (t : Text) : Except FileError (List (Text × Entry)) :=
  match f.locateFor .scan .use t with
  | .error e => .error e
  | .ok path =>
    match f.entry? path with
    | some .directory => .ok ((f.children path).mergeSort fun a b => b.1 ≤ a.1)
    | some _ => .error (.failed .notDirectory .scan (some t))
    | none => .error (.failed .noEntry .scan (some t))

/-- The content of a regular file; a special entry gives none. -/
def read (f : Files) (t : Text) : Except FileError Bytes :=
  match f.locateFor .openFile .use t with
  | .error e => .error e
  | .ok path =>
    match f.entry? path with
    | some (.file content) => .ok content
    | some .directory => .error (.failed .isDirectory .read none)
    | some _ => .ok []
    | none => .error (.failed .noEntry .openFile (some t))

/-! ## Changing files -/

/-- The files after writing content to a path, where a file is made unless one is there; a special
entry swallows it. -/
def write (f : Files) (t : Text) (content : Bytes) : Except FileError Files :=
  match f.locateFor .openFile .make t with
  | .error e => .error e
  | .ok path =>
    match f.entry? path with
    | some .directory => .error (.failed .isDirectory .openFile (some t))
    | some .special => .ok f
    | _ => .ok (f.set path (.file content))

/-- Makes the directory at a path and those above it, where they are missing, and gives its
place. -/
def makeDirectories (f : Files) (t : Text) : Except FileError Path × Files :=
  if !isUsable t then (.error (.unusable t), f)
  else if isOverlong t then (.error (.failed .nameTooLong .makeDirectory (some t)), f)
  else
    let (outcome, f) := f.descend linkLimit [] (f.components t)
    (outcome.mapError fun fault => .failed fault .makeDirectory (some t), f)

/-- Writes content to a path after making the directory that is to hold it. -/
def writeUnder (f : Files) (t : Text) (content : Bytes) : Except FileError Unit × Files :=
  match f.makeDirectories (Path.parentText t) with
  | (.error e, f) => (.error e, f)
  | (.ok _, f) =>
    match f.write t content with
    | .error e => (.error e, f)
    | .ok f => (.ok (), f)

/-- Where the text of a path stands when no link is followed. -/
def standing (f : Files) (t : Text) : Path := Path.resolve f.cwd (Text.stored t)

/-- Puts an entry at a path after making the directory that is to hold it.  Content goes to where
the path leads; a link or special entry takes the place of what stands at the path itself. -/
def plant (f : Files) (t : Text) : Entry → Except FileError Unit × Files
  | .file content => f.writeUnder t content
  | .directory =>
    let (outcome, f) := f.makeDirectories t
    (outcome.map fun _ => (), f)
  | entry =>
    match f.makeDirectories (Path.parentText t), (f.standing t).getLast? with
    | (.ok directory, f), some name => (.ok (), f.set (directory ++ [name]) entry)
    | (.ok _, f), none => (.error (.failed .taken .makeDirectory (some t)), f)
    | (.error e, f), _ => (.error e, f)

/-- The files that hold some entries, put one after the other. -/
def ofEntries (cwd : Path) (entries : List (Text × Entry)) : Files :=
  entries.foldl (fun f entry => (f.plant entry.1 entry.2).2) ⟨cwd, .empty⟩

/-- The files without what stands at a path and all below it. -/
def erase (f : Files) (t : Text) : Files :=
  let path := f.standing t
  match f.place .use path.dropLast, path.getLast? with
  | .ok directory, some name => f.remove (directory ++ [name])
  | _, _ => f

/-! ## Listing -/

/-- The regular files with their content, and the empty directories with a slash at the end, in
the order of their texts. -/
def listing (f : Files) : List (Text × Option Bytes) :=
  let items := f.entries.pairs.filterMap fun (path, entry) =>
    match entry with
    | .file content => some (Path.text path, some content)
    | .directory =>
      if (f.children path).isEmpty then some (Path.text path ++ [Text.slash], none) else none
    | _ => none
  items.mergeSort fun a b => a.1 ≤ b.1

end Files

end BulkTransfer
