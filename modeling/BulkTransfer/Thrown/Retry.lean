import BulkTransfer.Thrown

/-!
# Which failures are worth repeating

A failure is worth repeating when the service was at fault or asked for patience, or when its name,
its code or its message names a condition that passes.  A wrapper is judged by its cause.
-/

namespace BulkTransfer

/-- The names of conditions that pass. -/
def transientNames : List Text :=
  ["ETIMEDOUT", "ECONNRESET", "ECONNREFUSED", "EPIPE", "EAI_AGAIN", "NetworkingError",
    "TimeoutError", "RequestTimeout", "ServiceUnavailable", "SlowDown", "ThrottlingException",
    "RequestLimitExceeded"]

/-- Whether a status reports a fault of the service or too many requests. -/
def isTransientStatus (status : Number) : Bool := status.atLeast 500 || status.isNat 429

namespace Details

/-- Whether a name is the name or the code, or stands in the message. -/
def mentions (d : Details) (word : Text) : Bool :=
  d.name == some word || d.code == some word || Text.hasPart word d.message

def isRetryable (d : Details) : Bool :=
  d.status.any isTransientStatus || transientNames.any d.mentions

end Details

namespace Thrown

def isRetryable : Thrown → Bool
  | .wrapper _ _ cause => cause.isRetryable
  | .plain _ facts => (Details.ofFacts facts).isRetryable
  | .datum value => (details (.datum value)).isRetryable
  | .object fields shown => (details (.object fields shown)).isRetryable
  | .undefined => (details .undefined).isRetryable

end Thrown

/-- What is kept of the failure of one task. -/
structure FailureDetail where
  kind : Text
  message : Text
  retryable : Bool
deriving DecidableEq

def Thrown.failureDetail (e : Thrown) : FailureDetail := ⟨e.kind, e.display, e.isRetryable⟩

end BulkTransfer
