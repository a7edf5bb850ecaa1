import BulkTransfer.Datum

/-!
# What a failing call throws

A call may throw an error or anything else.  An error has a name, a message and possibly a code and
service metadata; a storage or enumeration error also carries the value that caused it.  The name
and the message of an error are always texts, and looking at a field of a thrown value never throws;
what may fail is to turn an object that is no error into a text.  `details` is what can be read off
any thrown value, `message` is its text for a person.
-/

namespace BulkTransfer

/-- The errors that stand for another thrown value. -/
inductive Wrapper where
  | storage
  | enumeration
deriving DecidableEq

/-- The errors that stand for themselves. -/
inductive Plain where
  | validation
  | configuration
  | general
deriving DecidableEq

/-- What an error says about itself.  Its name and message are texts; its code and metadata may be
any data. -/
structure Facts where
  name : Text
  message : Text
  code : Option Datum
  metadata : Option Datum

abbrev Fields := List (Text × Datum)

def codeField : Text := "code"

/-- The field that holds what a service reports beside its answer. -/
def metadataField : Text := "$metadata"

/-- The metadata entry with the status of an answer. -/
def statusField : Text := "httpStatusCode"

/-- A thrown value.  An object that is no error has fields, and a text unless it cannot be turned
into one. -/
inductive Thrown where
  | wrapper (kind : Wrapper) (facts : Facts) (cause : Thrown)
  | plain (kind : Plain) (facts : Facts)
  | datum (value : Datum)
  | object (fields : Fields) (shown : Option Text)
  | undefined

/-- Name, code, message and status of a thrown value, as far as it has them. -/
structure Details where
  name : Option Text
  code : Option Text
  message : Text
  status : Option Number

def Wrapper.name : Wrapper → Text
  | .storage => "StorageError"
  | .enumeration => "EnumerationError"

def Plain.name : Plain → Text
  | .validation => "ValidationError"
  | .configuration => "InvalidConfigurationError"
  | .general => "Error"

/-! ## Details -/

namespace Details

/-- The service status in an object's metadata. -/
def statusIn (metadata : Option Datum) : Option Number :=
  (metadata.bind (·.field? statusField)).bind Datum.number?

def ofFacts (f : Facts) : Details :=
  ⟨some f.name, f.code.bind Datum.text?, f.message, statusIn f.metadata⟩

def ofFields (fields : Fields) : Details :=
  ⟨none, (fields.lookup codeField).bind Datum.text?, [], statusIn (fields.lookup metadataField)⟩

def ofMessage (message : Text) : Details := ⟨none, none, message, none⟩

end Details

namespace Thrown

/-! ## Errors by kind -/

def facts (name message : Text) : Facts := ⟨name, message, none, none⟩

def storage (message : Text) (cause : Thrown) : Thrown :=
  .wrapper .storage (facts Wrapper.storage.name message) cause

def enumeration (message : Text) (cause : Thrown) : Thrown :=
  .wrapper .enumeration (facts Wrapper.enumeration.name message) cause

def validation (message : Text) : Thrown := .plain .validation (facts Plain.validation.name message)

def configuration (message : Text) : Thrown :=
  .plain .configuration (facts Plain.configuration.name message)

def general (message : Text) : Thrown := .plain .general (facts Plain.general.name message)

def isStorage : Thrown → Bool
  | .wrapper .storage _ _ => true
  | _ => false

/-- Whether a thrown value counts as nothing when a condition is asked for. -/
def isVacant : Thrown → Bool
  | .datum value => value.isVacant
  | .undefined => true
  | _ => false

/-! ## Reading a thrown value -/

def details : Thrown → Details
  | .wrapper _ facts _ => Details.ofFacts facts
  | .plain _ facts => Details.ofFacts facts
  | .datum (.text value) => Details.ofMessage value
  | .datum (.record fields) => Details.ofFields fields
  | .datum _ => Details.ofMessage []
  | .object fields _ => Details.ofFields fields
  | .undefined => Details.ofMessage []

/-! ## The text of a thrown value -/

/-- The message of an error, or a remark that it has none. -/
def displayFacts (f : Facts) : Text := Text.orElse f.message (f.name ++ " with no message")

/-- The text of something that is no error. -/
def displayShown : Option Text → Text
  | some t => Text.orElse t "Unknown error occurred"
  | none => "Unserializable error"

/-- The message of a thrown value for a person. -/
def display : Thrown → Text
  | .wrapper _ facts _ => displayFacts facts
  | .plain _ facts => displayFacts facts
  | .datum .null => "Unknown error occurred"
  | .datum value => displayShown value.shown?
  | .object _ shown => displayShown shown
  | .undefined => "Unknown error occurred"

/-- Whether a thrown value can be turned into a text. -/
def hasText : Thrown → Bool
  | .datum value => value.shown?.isSome
  | .object _ shown => shown.isSome
  | _ => true

/-- The kind under which a thrown value is reported: the name of an error. -/
def kind : Thrown → Text
  | .wrapper _ facts _ => facts.name
  | .plain _ facts => facts.name
  | _ => "UnknownError"

def message : Thrown → Text
  | .wrapper _ facts _ => facts.message
  | .plain _ facts => facts.message
  | _ => []

/-- The code under which the command line reports a fatal error. -/
def responseCode : Thrown → Text
  | .wrapper .enumeration _ _ => "ENUMERATION_ERROR"
  | .wrapper .storage _ _ => "STORAGE_ERROR"
  | .plain .configuration _ => "INVALID_CONFIGURATION"
  | .plain .validation _ => "VALIDATION_ERROR"
  | _ => "UNKNOWN_ERROR"

def isError : Thrown → Bool
  | .wrapper _ _ _ => true
  | .plain _ _ => true
  | _ => false

end Thrown

end BulkTransfer
