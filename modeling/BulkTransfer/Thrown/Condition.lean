import BulkTransfer.Thrown

/-!
# What a storage failure means

A value thrown by the object service is read as one of a few conditions by the first rule that
matches its details, and becomes a storage error that says so and keeps the value as its cause.  A
storage error stays as it is.
-/

namespace BulkTransfer

/-- What went wrong at the object service. -/
inductive Condition where
  | noSuchContainer
  | noSuchObject
  | notFound
  | accessDenied
  | forbidden
  | quotaExceeded
  | tooLarge
  | badContainerName
  | network
  | timedOut
  | throttled
  | unavailable
  | internal
  | other
deriving DecidableEq

namespace Details

def isNamed (d : Details) (name : Text) : Bool := d.name == some name

def hasCode (d : Details) (code : Text) : Bool := d.code == some code

def hasStatus (d : Details) (status : Nat) : Bool := d.status.any (·.isNat status)

end Details

namespace Condition

/-- The rules in the order in which they are tried. -/
def rules : List (Condition × (Details → Bool)) :=
  [(noSuchContainer, fun d => d.isNamed "NoSuchBucket"),
    (noSuchObject, fun d => d.isNamed "NoSuchKey"),
    (notFound, fun d => d.isNamed "NotFound" || d.hasStatus 404),
    (accessDenied, fun d => d.isNamed "AccessDenied"),
    (forbidden, fun d => d.isNamed "Forbidden" || d.hasStatus 403),
    (quotaExceeded, fun d => d.hasCode "QuotaExceeded" || d.isNamed "QuotaExceeded"),
    (tooLarge, fun d => d.isNamed "EntityTooLarge"),
    (badContainerName, fun d => d.isNamed "InvalidBucketName"),
    (network, fun d =>
      d.hasCode "NetworkingError" || d.isNamed "NetworkingError" || d.hasCode "ECONNRESET" ||
        d.hasCode "ECONNREFUSED" || d.hasCode "ENOTFOUND" || d.hasCode "EPIPE"),
    (timedOut, fun d =>
      d.hasCode "RequestTimeout" || d.isNamed "RequestTimeout" || d.isNamed "TimeoutError" ||
        d.hasCode "ETIMEDOUT"),
    (throttled, fun d =>
      d.isNamed "SlowDown" || d.isNamed "ThrottlingException" ||
        d.isNamed "RequestLimitExceeded" || d.hasStatus 429),
    (unavailable, fun d => d.isNamed "ServiceUnavailable" || d.hasStatus 503),
    (internal, fun d => d.isNamed "InternalError" || d.hasStatus 500)]

def ofDetails (d : Details) : Condition :=
  match rules.find? (·.2 d) with
  | some (condition, _) => condition
  | none => other

/-- Whether a condition passes by itself. -/
def isTransient : Condition → Bool
  | network => true
  | timedOut => true
  | throttled => true
  | unavailable => true
  | internal => true
  | _ => false

/-- A message about an object that is not there; an unnamed object points to its container. -/
def missing (container : Text) : Option Text → Text
  | some (u :: rest) =>
    "Object '" ++ (u :: rest) ++ "' not found in container '" ++ container ++ "'"
  | _ => "Container '" ++ container ++ "' does not exist"

/-- The message of a condition, for the container and object of the request and the message that
came with it. -/
def message (container : Text) (object : Option Text) (reported : Text) : Condition → Text
  | noSuchContainer => "Container '" ++ container ++ "' does not exist"
  | noSuchObject =>
    "Object '" ++ object.getD "unknown" ++ "' does not exist in container '" ++ container ++ "'"
  | notFound => missing container object
  | accessDenied => "Access denied to container '" ++ container ++ "'"
  | forbidden => "Insufficient permissions for container '" ++ container ++ "'"
  | quotaExceeded => "Storage quota exceeded"
  | tooLarge => "Object size exceeds storage limits"
  | badContainerName => "Invalid container name: '" ++ container ++ "'"
  | network => "Storage request failed: network error"
  | timedOut => "Storage request timed out"
  | throttled => "Storage request throttled, please retry"
  | unavailable => "Storage service temporarily unavailable"
  | internal => "Storage internal server error"
  | other => "Storage operation failed: " ++ Text.orElse reported "Unknown error"

end Condition

def Thrown.condition (e : Thrown) : Condition := Condition.ofDetails e.details

/-- The storage error for a thrown value: itself when it is one, else a new one with the value as
cause. -/
def Thrown.asStorage (e : Thrown) (container object : Option Text) : Thrown :=
  if e.isStorage then e
  else
    .storage
      (e.condition.message (Text.orElse (container.getD []) "specified container") object
        e.details.message)
      e

end BulkTransfer
