import BulkTransfer.Number.Shortest

/-!
# Clocks

Time is counted in milliseconds from the start of a run.  A clock of limited precision cannot show
every instant, so a time that is worked out, a later one or the length of a span, is the one that
the clock shows for it.  The clock of the machine shows the nearest floating point value; the exact
clock shows each instant as it is.
-/

namespace BulkTransfer

/-- A number of milliseconds. -/
abbrev Time := Rat

def Time.text (time : Time) : Text := (Number.finite time).render

/-- What a clock shows at an instant. -/
structure Clock where
  shown : Rat → Time

namespace Clock

/-- The clock that shows each instant as it is. -/
def exact : Clock := ⟨id⟩

/-- The clock that shows the floating point value nearest to an instant. -/
def binary : Clock := ⟨Number.rounded⟩

/-- The time that comes a delay after another one. -/
def after (clock : Clock) (time delay : Time) : Time := clock.shown (time + delay)

/-- The time that has passed from one time to another. -/
def between (clock : Clock) (first last : Time) : Time := clock.shown (last - first)

theorem after_exact (time delay : Time) : exact.after time delay = time + delay := rfl

theorem between_exact (first last : Time) : exact.between first last = last - first := rfl

end Clock

end BulkTransfer
