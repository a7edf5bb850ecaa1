import BulkTransfer.Event
import BulkTransfer.Host
import BulkTransfer.Thrown

/-!
# How many transfers at a time

Unless the caller says otherwise, half of the processors are used; an environment variable may
replace that number by one from 1 to 64.  A number that the caller gives is rounded down and is at
least 1; one that is not finite is refused.
-/

namespace BulkTransfer

namespace Concurrency

def least : Nat := 1

/-- The greatest number that the environment may ask for. -/
def limit : Nat := 64

/-- Half of the processors, rounded down, and at least one. -/
def ofCpus (cpus : Nat) : Nat := max least (cpus / 2)

/-! ## The environment's number -/

def overrideName : Text := "BATCH_CONCURRENCY"

def valueOf (digits : Text) : Nat :=
  digits.foldl (fun n u => 10 * n + (u.toNat - (Text.unit '0').toNat)) 0

/-- A number without its sign: the longest run of digits at the start, if there is one. -/
def unsigned? (t : Text) : Option Nat :=
  match t.takeWhile Text.isDigit with
  | [] => none
  | digits => some (valueOf digits)

/-- A number with or without a sign. -/
def signed? : Text → Option Int
  | [] => none
  | u :: rest =>
    if u = Text.unit '-' then (unsigned? rest).map fun (n : Nat) => -(n : Int)
    else if u = Text.unit '+' then (unsigned? rest).map Int.ofNat
    else (unsigned? (u :: rest)).map Int.ofNat

/-- The whole number that text starts with, after blanks and a sign; what follows is ignored. -/
def leading? (t : Text) : Option Int := signed? (t.dropWhile Text.isBlank)

/-- The text of a whole number, rounded as a floating point value. -/
def shown (n : Int) : Text := (Number.ofInt n).render

/-- The whole number that text starts with, rounded to a floating point value, or not-a-number when
the text starts with none. -/
def parsed (t : Text) : Number :=
  match leading? t with
  | none => .nan
  | some n => Number.ofInt n

/-- The default for a host, and the warning that goes with it. -/
def ofHost (host : Host) : Nat × Option Text :=
  let fallback := ofCpus host.cpus
  match host.environment.value? overrideName with
  | none => (fallback, none)
  | some t =>
    match parsed t with
    | .nan =>
      (fallback, some ("Invalid BATCH_CONCURRENCY value \"" ++ t ++ "\", using default " ++
        Text.ofNat fallback))
    | n =>
      if n.isBelow least then
        (least, some ("BATCH_CONCURRENCY value " ++ n.render ++ " is below minimum " ++
          Text.ofNat least ++ ", using minimum"))
      else if n.isAbove limit then
        (limit, some ("BATCH_CONCURRENCY value " ++ n.render ++ " exceeds maximum " ++
          Text.ofNat limit ++ ", using maximum"))
      else (n.count, none)

/-! ## The caller's number -/

/-- The refusal of a number that is not finite. -/
def notFinite (n : Number) : Thrown :=
  .configuration ("Concurrency must be a finite number, got " ++ n.render)

/-- A caller's number as a count of transfers, and the warning that goes with it. -/
def normalize (n : Number) : Except Thrown (Nat × Option Text) :=
  match n with
  | .finite q =>
    if q.floor < least then
      .ok (least, some ("Concurrency " ++ n.render ++ " is below minimum " ++ Text.ofNat least ++
        ", running serially"))
    else .ok (q.floor.toNat, none)
  | other => .error (notFinite other)

end Concurrency

end BulkTransfer
