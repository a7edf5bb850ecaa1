import BulkTransfer.Bucket
import BulkTransfer.Bucket.Console
import BulkTransfer.Transfer

/-!
# Moving objects through a bucket service

The client makes a container unless it exists, puts files, gets objects and lists all pages of a
container.  Whatever a command throws becomes a storage error.
-/

namespace BulkTransfer

namespace Session

/-! ## Containers -/

/-- Whether a thrown value says that a bucket is not there. -/
def saysMissing (e : Thrown) : Bool :=
  e.details.isNamed "NotFound" || e.details.isNamed "NoSuchBucket" || e.details.hasStatus 404

/-- Whether a thrown value says that the bucket is there already. -/
def saysOwned (e : Thrown) : Bool := e.details.isNamed "BucketAlreadyOwnedByYou"

/-- A bucket cannot be had: what was thrown is printed beside a line about the bucket and becomes a
storage error, unless printing throws first. -/
def giveUp (console : Console) (line bucket : Text) (e : Thrown) (s : Session) : Ran Session Unit :=
  match console.fault? line e with
  | some fault => ⟨.error fault, s, []⟩
  | none => ⟨.error (e.asStorage (some bucket) none), s, [.error line]⟩

def createBucketOn (console : Console) (bucket : Text) (s : Session) : Ran Session Unit :=
  match s.send (.create bucket) with
  | (.answered _, s) => ⟨.ok (), s, [.log ("Created container " ++ bucket)]⟩
  | (.failed e, s) =>
    if saysOwned e then .value () s
    else giveUp console ("Failed to create container " ++ bucket ++ ":") bucket e s

def ensureBucketOn (console : Console) (bucket : Text) (s : Session) : Ran Session Unit :=
  match s.send (.head bucket) with
  | (.answered _, s) => .value () s
  | (.failed e, s) =>
    if saysMissing e then createBucketOn console bucket s
    else giveUp console "Bucket access validation failed:" bucket e s

/-- Makes a container unless it exists, on a console that prints every line. -/
def ensureBucket (bucket : Text) (s : Session) : Ran Session Unit :=
  ensureBucketOn .plain bucket s

/-! ## Objects -/

/-- Puts the content of a file.  The client hands it over unread: whether it can be read matters
only to a service that drains it. -/
def sendFile (task : Task) (s : Session) : Except Thrown Unit × Session :=
  match s.files.stat task.localPath with
  | .error e => (.error e.thrown, s)
  | .ok _ =>
    let content := s.files.read task.localPath
    match s.send (.put task.container task.objectName content.toOption), content with
    | (.failed e, s), _ => (.error e, s)
    | (.answered _, s), .error e => if s.remote.drains then (.error e.thrown, s) else (.ok (), s)
    | (.answered _, s), .ok _ => (.ok (), s)

def noBody (key : Text) : Thrown :=
  .storage ("Object '" ++ key ++ "' returned no readable body") .undefined

/-- Writes the content of an answer.  A stream fails before its file could, and leaves it empty. -/
def writeBody (task : Task) (body : Body) (f : Files) : Except Thrown Unit × Files :=
  match body with
  | .unreadable => (.error (noBody task.objectName), f)
  | .bytes content =>
    let (outcome, f) := f.writeUnder task.localPath content
    (outcome.mapError FileError.thrown, f)
  | .broken error =>
    match f.makeDirectories (Path.parentText task.localPath) with
    | (.error e, f) => (.error e.thrown, f)
    | (.ok _, f) => (.error error, (f.write task.localPath []).toOption.getD f)

/-- Gets an object and writes it to its path. -/
def receiveFile (task : Task) (s : Session) : Except Thrown Unit × Session :=
  match s.send (.get task.container task.objectName) with
  | (.failed e, s) => (.error e, s)
  | (.answered answer, s) =>
    let (outcome, files) := writeBody task answer.body s.files
    (outcome, { s with files })

/-- An operation whose failure becomes a storage error about its object. -/
def asStorage (task : Task) (operation : Task → Session → Except Thrown Unit × Session)
    (s : Session) : Except Thrown Unit × Session :=
  let (outcome, s) := operation task s
  (outcome.mapError fun e => e.asStorage (some task.container) (some task.objectName), s)

def put : Task → Session → Except Thrown Unit × Session := fun task => asStorage task sendFile

def get : Task → Session → Except Thrown Unit × Session := fun task => asStorage task receiveFile

/-! ## Listings -/

/-- Reads pages until one is the last.  `queue` counts the replies that are ready: after them the
service has no further page. -/
def readPages (bucket : Text) (start : Option Text) :
    (queue : Nat) → Option Text → Session → Except Thrown (List Text) × Session
  | queue, token, s =>
    match s.send (.list bucket start token) with
    | (.failed e, s) => (.error e, s)
    | (.answered answer, s) =>
      match queue, answer.page.continuation with
      | queue + 1, some next =>
        let (rest, s) := readPages bucket start queue (some next) s
        (rest.map (answer.page.names ++ ·), s)
      | _, _ => (.ok (answer.page.names), s)

def list (bucket : Text) (start : Option Text) (s : Session) : Ran Session (List Text) :=
  let (outcome, s) := readPages bucket start s.remote.pages.length none s
  ⟨outcome.mapError fun e => e.asStorage (some bucket) none, s, []⟩

/-! ## The service as a place to move objects -/

/-- An operation of the client, which is done as soon as its turn comes. -/
def operation (work : Session → Except Thrown Unit × Session) (s : Session) :
    Launch Session × Session :=
  (.waits 0 work, s)

/-- Moving objects between a bucket service and the local files. -/
def transport : Transport Session :=
  { files := Session.files
    ensureContainer := ensureBucket
    list
    put := fun task => operation (put task)
    get := fun task => operation (get task) }

end Session

/-! ## Settings of the client -/

/-- What a caller may set. -/
structure ClientOptions where
  region : Option Text
  endpoint : Option Text
  forcePathStyle : Option Bool
  maxAttempts : Option Number

structure ClientConfig where
  region : Text
  maxAttempts : Number
  forcePathStyle : Bool
  customEndpoint : Bool

namespace ClientConfig

/-- How often the service is asked before a command fails. -/
def defaultAttempts : Number := .finite 5

/-- The region of a caller that names none. -/
def homeRegion : Text := "us-east-1"

/-- The name of the region in the environment, or else of the service's home. -/
def hostRegion (env : Environment) : Text := (env.value? "AWS_REGION").getD homeRegion

/-- The name of the region that options and environment give; an empty one counts as unset. -/
def regionName (env : Environment) (options : ClientOptions) : Text :=
  (options.region.filter fun name => !name.isEmpty).getD (hostRegion env)

/-- The settings that options and environment give, unless the service refuses the name of their
region.  What region a name stands for is up to the service.  An empty endpoint counts as unset. -/
def ofOptions (env : Environment) (options : ClientOptions)
    (regionOf : Text → Except Thrown Text := .ok) : Except Thrown ClientConfig :=
  (regionOf (regionName env options)).map fun region =>
    { region
      maxAttempts := options.maxAttempts.getD defaultAttempts
      forcePathStyle := options.forcePathStyle.getD false
      customEndpoint := options.endpoint.any fun address => !address.isEmpty }

end ClientConfig

end BulkTransfer
