import BulkTransfer.Bucket.Client
import BulkTransfer.Naming.Container

/-!
# Settings of the worker

The worker is told by environment variables what to move.  Unset and empty variables are the same.
-/

namespace BulkTransfer

/-- What the worker is to do. -/
structure Settings where
  direction : Direction
  container : Text
  localDirectory : Text
  keyPrefix : Option Text
  region : Text
  endpoint : Option Text
  forcePathStyle : Bool

/-- Why an environment is refused. -/
inductive SettingsFault where
  | unset (name : Text)
  | direction (value : Text)
  | container (fault : ContainerFault)
  | forcePathStyle (value : Text)

namespace SettingsFault

def message : SettingsFault → Text
  | .unset name => "Missing required environment variable: " ++ name
  | .direction value =>
    "TRANSFER_DIRECTION must be \"upload\" or \"download\", got \"" ++ value ++ "\""
  | .container fault => fault.message
  | .forcePathStyle value =>
    "S3_FORCE_PATH_STYLE must be \"true\" or \"false\", got \"" ++ value ++ "\""

end SettingsFault

namespace Settings

def required (env : Environment) (name : Text) : Except SettingsFault Text :=
  match env.value? name with
  | some value => .ok value
  | none => .error (.unset name)

def directionOf (word : Text) : Except SettingsFault Direction :=
  if word = Direction.upload.word then .ok .upload
  else if word = Direction.download.word then .ok .download
  else .error (.direction word)

/-- A container name that breaks no rule. -/
def containerOf (name : Text) : Except SettingsFault Text :=
  match ContainerName.fault? name with
  | some fault => .error (.container fault)
  | none => .ok name

/-- A switch that is off unless it is set. -/
def switch (value : Option Text) : Except SettingsFault Bool :=
  match value with
  | none => .ok false
  | some word =>
    if word = Text.ofString "true" then .ok true
    else if word = Text.ofString "false" then .ok false
    else .error (.forcePathStyle word)

def ofEnvironment (env : Environment) : Except SettingsFault Settings := do
  let word ← required env "TRANSFER_DIRECTION"
  let direction ← directionOf word
  let name ← required env "CONTAINER_NAME"
  let container ← containerOf name
  let localDirectory ← required env "LOCAL_DIRECTORY"
  let forcePathStyle ← switch (env.value? "S3_FORCE_PATH_STYLE")
  return { direction, container, localDirectory, forcePathStyle
           keyPrefix := env.value? "KEY_PREFIX"
           region := ClientConfig.hostRegion env
           endpoint := env.value? "S3_ENDPOINT" }

end Settings

end BulkTransfer
