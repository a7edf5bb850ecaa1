import BulkTransfer.Clock

/-!
# What a run shows

A run writes console lines, calls operations and reports progress.  The events of a run are listed
in the order in which they happen.
-/

namespace BulkTransfer

inductive Level where
  | log
  | warn
  | error
deriving DecidableEq

/-- Something a run shows: a console line, the start of an operation, or a finished operation with
the count of finished ones, the count of all and the time. -/
inductive Event where
  | console (level : Level) (text : Text)
  | started (object : Text) (time : Time)
  | progress (object : Text) (succeeded : Bool) (completed total : Nat) (time : Time)
deriving DecidableEq

namespace Event

def log (text : Text) : Event := .console .log text

def warn (text : Text) : Event := .console .warn text

def error (text : Text) : Event := .console .error text

end Event

end BulkTransfer
