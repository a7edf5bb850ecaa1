import BulkTransfer.Naming.Clean

/-!
# Container names

A container name has 3 to 63 lower case letters, digits, periods and hyphens, begins and ends with
a letter or digit, and avoids a few reserved shapes.  `ContainerName.fault?` gives the first rule
that a name breaks.
-/

namespace BulkTransfer

/-- The rules that a container name may break, in the order in which they are checked. -/
inductive ContainerFault where
  | missing
  | unclean
  | length
  | characters
  | ends
  | adjacentPeriods
  | address
  | reservedStart
  | reservedEnd
deriving DecidableEq

def ContainerFault.message : ContainerFault → Text
  | .missing => "Container name is required"
  | .unclean => "Container name must not contain whitespace or control characters"
  | .length => "Container name must be between 3 and 63 characters long"
  | .characters =>
    "Container name can only contain lowercase letters, numbers, dots, and hyphens"
  | .ends => "Container name must begin and end with a letter or number"
  | .adjacentPeriods => "Container name must not contain two adjacent periods"
  | .address => "Container name must not be formatted as an IP address"
  | .reservedStart => "Container name must not start with \"xn--\" prefix"
  | .reservedEnd => "Container name must not end with \"-s3alias\" suffix"

namespace ContainerName

open Text

def isAlphanumeric (u : UInt16) : Bool := isLower u || isDigit u

def isAllowed (u : UInt16) : Bool := isAlphanumeric u || u == unit '.' || u == unit '-'

/-- Whether the first and the last unit are letters or digits. -/
def hasGoodEnds (name : Text) : Bool :=
  name.head?.any isAlphanumeric && name.getLast?.any isAlphanumeric

/-- One to three digits. -/
def isOctet (piece : Text) : Bool :=
  1 ≤ piece.length && piece.length ≤ 3 && piece.all isDigit

/-- Whether a name is four groups of one to three digits with periods between them. -/
def isAddress (name : Text) : Bool :=
  let groups := split (unit '.') name
  groups.length == 4 && groups.all isOctet

def reservedStart : Text := "xn--"

def reservedEnd : Text := "-s3alias"

/-- The first rule that a name breaks. -/
def fault? (name : Text) : Option ContainerFault :=
  if (clean name).isEmpty then some .missing
  else if clean name ≠ name then some .unclean
  else if name.length < 3 || 63 < name.length then some .length
  else if !name.all isAllowed then some .characters
  else if !hasGoodEnds name then some .ends
  else if hasPart ".." name then some .adjacentPeriods
  else if isAddress name then some .address
  else if reservedStart.isPrefixOf name then some .reservedStart
  else if reservedEnd.isSuffixOf name then some .reservedEnd
  else none

end ContainerName

end BulkTransfer
