import BulkTransfer.Clock

/-!
# The host

What a run reads from the machine it runs on: its number of processors, its environment and
its clock.
-/

namespace BulkTransfer

abbrev Environment := List (Text × Text)

/-- The machine as a run sees it. -/
structure Host where
  cpus : Nat
  environment : Environment
  clock : Clock

/-- The value of a variable; an empty one counts as unset. -/
def Environment.value? (env : Environment) (name : Text) : Option Text :=
  match env.lookup name with
  | some (u :: rest) => some (u :: rest)
  | _ => none

end BulkTransfer
