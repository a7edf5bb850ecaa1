import BulkTransfer.Pool.Job

/-!
# Progress lines

Progress is shown in tenths: a line appears when the tenth of the tasks that have finished is not
the one of the line before.
-/

namespace BulkTransfer

/-- The tenth that was shown last, if any was. -/
abbrev Meter := Option Nat

namespace Meter

/-- The tenth that a count has reached. -/
def tenth (completed total : Nat) : Nat := 10 * completed / total

def line (completed total : Nat) : Event :=
  .log ("Progress: " ++ Text.ofNat completed ++ "/" ++ Text.ofNat total ++ " objects (" ++
    Text.ofNat (tenth completed total * 10) ++ "%)")

/-- What a count shows, and the meter after it. -/
def tick (meter : Meter) (completed total : Nat) : List Event × Meter :=
  if meter = some (tenth completed total) then ([], meter)
  else ([line completed total], some (tenth completed total))

def observer : Observer Meter :=
  { state := none
    react := fun report meter =>
      let (events, meter) := tick meter report.completed report.total
      (⟨events, none⟩, meter) }

end Meter

end BulkTransfer
