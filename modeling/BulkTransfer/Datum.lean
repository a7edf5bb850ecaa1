import BulkTransfer.Number.Shortest

/-!
# Plain data

A datum is what a service or a caller may hand over in place of a typed value: a scalar, a list or
a record.  `shown?` is its text; a record that overrides its own conversion has none.
-/

namespace BulkTransfer

/-- A value without a type of its own. -/
inductive Datum where
  | null
  | bool (value : Bool)
  | number (value : Number)
  | text (value : Text)
  | list (items : List Datum)
  | record (fields : List (Text × Datum))

namespace Datum

def field? (name : Text) : Datum → Option Datum
  | .record fields => fields.lookup name
  | _ => none

def text? : Datum → Option Text
  | .text value => some value
  | _ => none

def number? : Datum → Option Number
  | .number value => some value
  | _ => none

/-- The field of a record that replaces its conversion to text. -/
def conversionField : Text := "toString"

mutual

/-- The text of a datum.  A list joins its items with commas; a record has one fixed text, and none
when it replaces its own conversion. -/
def shown? : Datum → Option Text
  | .null => some "null"
  | .bool value => some (if value then "true" else "false")
  | .number value => some value.render
  | .text value => some value
  | .list items => (shownItems? items).map (Text.joinWith ",")
  | .record fields =>
    if (fields.lookup conversionField).isSome then none else some "[object Object]"

/-- The texts of the items of a list, where an empty item has an empty text. -/
def shownItems? : List Datum → Option (List Text)
  | [] => some []
  | .null :: rest => (shownItems? rest).map ([] :: ·)
  | item :: rest =>
    match shown? item, shownItems? rest with
    | some t, some ts => some (t :: ts)
    | _, _ => none

end

/-- Whether a datum counts as nothing when a condition is asked for. -/
def isVacant : Datum → Bool
  | .null => true
  | .bool value => !value
  | .number value => value == .nan || value.isNat 0
  | .text value => value.isEmpty
  | .list _ => false
  | .record _ => false

end Datum

end BulkTransfer
