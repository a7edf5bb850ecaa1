import BulkTransfer.Event
import BulkTransfer.Thrown

/-!
# Runs over a world

A run leaves its value or what it threw, the world as it then is, and the events on the way.  Runs
follow one another with `andThen`, which stops at the first one that throws and keeps all events.
-/

namespace BulkTransfer

/-- What a run over a world leaves. -/
structure Ran (σ α : Type) where
  outcome : Except Thrown α
  world : σ
  events : List Event

namespace Ran

variable {σ α β : Type}

def value (a : α) (world : σ) : Ran σ α := ⟨.ok a, world, []⟩

def throw (error : Thrown) (world : σ) : Ran σ α := ⟨.error error, world, []⟩

/-- The run with events before its own. -/
def after (events : List Event) (r : Ran σ α) : Ran σ α := { r with events := events ++ r.events }

/-- The run that goes on with the value of another one. -/
def andThen (r : Ran σ α) (next : α → σ → Ran σ β) : Ran σ β :=
  match r.outcome with
  | .error error => ⟨.error error, r.world, r.events⟩
  | .ok a => (next a r.world).after r.events

def map (f : α → β) (r : Ran σ α) : Ran σ β := ⟨r.outcome.map f, r.world, r.events⟩

end Ran

end BulkTransfer
