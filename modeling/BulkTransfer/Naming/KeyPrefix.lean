import BulkTransfer.Naming.Clean

/-!
# Key prefixes

The objects of a transfer may share a key prefix.  It is checked in its cleaned form, and put in
front of object names in its normal form: without blanks at the ends, without one leading slash,
and closed by a slash unless it is empty.
-/

namespace BulkTransfer

/-- The rules that a key prefix may break, in the order in which they are checked. -/
inductive KeyPrefixFault where
  | length
  | leadingSlash
  | characters
deriving DecidableEq

def KeyPrefixFault.message : KeyPrefixFault → Text
  | .length => "Key prefix must not exceed 1024 characters"
  | .leadingSlash => "Key prefix should not start with a forward slash"
  | .characters =>
    "Key prefix contains invalid characters. Allowed: letters, numbers, and ! - _ . * ' ( ) /"

namespace KeyPrefix

open Text

def limit : Nat := 1024

/-- The signs a key prefix may hold beside letters and digits. -/
def signs : Text := "!_.*'()/-"

def isAllowed (u : UInt16) : Bool := isLower u || isUpper u || isDigit u || signs.contains u

/-- The first rule that a key prefix breaks. -/
def fault? (keyPrefix : Text) : Option KeyPrefixFault :=
  let cleaned := clean keyPrefix
  if cleaned.isEmpty then none
  else if limit < cleaned.length then some .length
  else if cleaned.head? == some slash then some .leadingSlash
  else if !cleaned.all isAllowed then some .characters
  else none

/-- The text without one leading slash. -/
def dropSlash : Text → Text
  | [] => []
  | u :: rest => if u = slash then rest else u :: rest

/-- The text closed by a slash, unless it is empty. -/
def closeSlash (t : Text) : Text :=
  match t.getLast? with
  | none => []
  | some u => if u = slash then t else t ++ [slash]

/-- The normal form of a key prefix; no prefix is the empty one. -/
def normalize : Option Text → Text
  | none => []
  | some keyPrefix => closeSlash (dropSlash (trim keyPrefix))

/-- The object name of a file under a key prefix. -/
def objectName (keyPrefix : Option Text) (file : Text) : Text := normalize keyPrefix ++ file

end KeyPrefix

end BulkTransfer
