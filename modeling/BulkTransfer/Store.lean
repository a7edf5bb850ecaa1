import BulkTransfer.Clock
import BulkTransfer.OrderedMap
import BulkTransfer.Task
import BulkTransfer.Text.Utf8

/-!
# The in-process store

A store keeps containers of objects in memory.  Chosen objects, listing and making containers can
be made to fail, and each object has a delay.  The store logs its calls and counts the operations
in flight.
-/

namespace BulkTransfer

/-- A call on a store. -/
inductive StoreCall where
  | create (container : Text)
  | put (object : Text)
  | get (object : Text)
  | list (container : Text)
deriving DecidableEq

def StoreCall.text : StoreCall → Text
  | .create container => "create:" ++ container
  | .put object => "put:" ++ object
  | .get object => "get:" ++ object
  | .list container => "list:" ++ container

abbrev Objects := OrderedMap Text Bytes

/-- A store in memory. -/
structure Store where
  containers : OrderedMap Text Objects
  failures : OrderedMap Text Thrown
  listingFailure : Option Thrown
  creationFailure : Option Thrown
  delay : Time
  delays : OrderedMap Text Time
  calls : List StoreCall
  inFlight : Nat
  peakInFlight : Nat

namespace Store

/-! ## Content -/

def hasContainer (s : Store) (container : Text) : Bool := s.containers.contains container

def object? (s : Store) (container name : Text) : Option Bytes :=
  (s.containers.find? container).bind (·.find? name)

/-- The store with a container, which is empty unless it was there. -/
def withContainer (s : Store) (container : Text) : Store :=
  if s.hasContainer container then s
  else { s with containers := s.containers.insert container .empty }

/-- The store with an object set, in a container that is made if need be. -/
def seed (s : Store) (container name : Text) (content : Bytes) : Store :=
  let objects := (s.containers.find? container).getD .empty
  { s with containers := s.containers.insert container (objects.insert name content) }

/-! ## Failures -/

def absent (name : Text) : Thrown := .storage ("Object '" ++ name ++ "' not found") .undefined

/-- The store in which an object fails, with the error of a missing object unless another value is
given. -/
def failObject (s : Store) (name : Text) (error : Thrown) : Store :=
  let thrown := match error with
    | .undefined => absent name
    | other => other
  { s with failures := s.failures.insert name thrown }

/-- The store in which an object no longer fails, and whether it did. -/
def heal (s : Store) (name : Text) : Bool × Store :=
  (s.failures.contains name, { s with failures := s.failures.erase name })

/-- The store in which listing throws a value. -/
def failListing (s : Store) (error : Option Thrown) : Store := { s with listingFailure := error }

/-- A value that really is thrown: one that does not count as nothing. -/
def solid (error : Option Thrown) : Option Thrown := error.filter fun e => !e.isVacant

/-- What an operation on an object throws before it does anything. -/
def failureOf (s : Store) (name : Text) : Option Thrown := solid (s.failures.find? name)

/-! ## Calls and operations in flight -/

def log (s : Store) (call : StoreCall) : Store := { s with calls := s.calls ++ [call] }

def enter (s : Store) : Store :=
  { s with
    inFlight := s.inFlight + 1
    peakInFlight := max s.peakInFlight (s.inFlight + 1) }

def leave (s : Store) : Store := { s with inFlight := s.inFlight - 1 }

/-- The store with no calls logged and no peak. -/
def forget (s : Store) : Store := { s with calls := [], peakInFlight := 0 }

/-- The shortest wait of a timer. -/
def leastWait : Time := 1

/-- The longest delay that a timer takes. -/
def longestDelay : Time := 2147483647

/-- How long an operation with a delay waits.  Without a delay it sets no timer and begins when it
is called.  A timer counts whole units of time; it takes a delay that is too short or too long for
it as the shortest. -/
def waitOf (delay : Time) : Time :=
  if delay ≤ 0 then 0
  else if delay < leastWait ∨ longestDelay < delay then leastWait
  else delay.floor

/-- How long an operation on an object waits. -/
def delayOf (s : Store) (name : Text) : Time := waitOf ((s.delays.find? name).getD s.delay)

def create (s : Store) (container : Text) : Except Thrown Unit × Store :=
  match s.creationFailure with
  | some error => (.error error, s)
  | none => (.ok (), (s.log (.create container)).withContainer container)

def noContainer (container : Text) : Thrown :=
  .storage ("Container '" ++ container ++ "' does not exist") .undefined

def noObject (container name : Text) : Thrown :=
  .storage ("Object '" ++ name ++ "' does not exist in container '" ++ container ++ "'") .undefined

/-- The names in a container that start with a text, in the order in which they came. -/
def list (s : Store) (container : Text) (start : Option Text) : Except Thrown (List Text) × Store :=
  let outcome := match solid s.listingFailure, s.containers.find? container with
    | some error, _ => .error error
    | none, none => .error (noContainer container)
    | none, some objects => .ok (objects.keys.filter fun name => (start.getD []).isPrefixOf name)
  (outcome, s.log (.list container))

/-- The containers with their objects, both in the order of their names. -/
def listing (s : Store) : List (Text × List (Text × Bytes)) :=
  (s.containers.pairs.map fun (container, objects) =>
    (container, objects.pairs.mergeSort fun a b => a.1 ≤ b.1)).mergeSort fun a b => a.1 ≤ b.1

end Store

end BulkTransfer
