import BulkTransfer.Text

/-!
# Cleaning text

Text from outside is cleaned before it is judged: blanks at the ends go, control units go, each run
of blanks becomes one plain blank, and what is longer than the limit is cut.
-/

namespace BulkTransfer

namespace Text

/-- The control units that cleaning removes: all of ASCII but tab, line feed and carriage return. -/
def isControl (u : UInt16) : Bool :=
  u ≤ 0x08 || u == 0x0B || u == 0x0C || (0x0E ≤ u && u ≤ 0x1F) || u == 0x7F

/-- The text with each run of blanks made one plain blank. -/
def collapseBlanks : Text → Text
  | [] => []
  | [u] => [if isBlank u then space else u]
  | u :: v :: rest =>
    if isBlank u then
      if isBlank v then collapseBlanks (v :: rest) else space :: collapseBlanks (v :: rest)
    else u :: collapseBlanks (v :: rest)

/-- The length at which cleaned text is cut. -/
def cleanLimit : Nat := 2048

def clean (t : Text) : Text :=
  (collapseBlanks ((trim t).filter fun u => !isControl u)).take cleanLimit

end Text

end BulkTransfer
