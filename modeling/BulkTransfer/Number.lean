import BulkTransfer.Text

/-!
# Numbers

A number is a binary floating point value of 53 significant bits, given exactly as a rational, or
one of the values without a rational: not-a-number and the two infinities.  `nearest` rounds a
rational to such a value, to the even neighbour when two are equally near.
-/

namespace BulkTransfer

/-- A floating point value. -/
inductive Number where
  | nan
  | infinite (negative : Bool)
  | finite (value : Rat)
deriving DecidableEq

namespace Number

/-! ## Rounding -/

/-- A power of a base; a negative exponent counts as zero.  So a factor with exponent `e` is
`power base e` above and `power base (-e)` below a fraction bar, whatever the sign of `e`. -/
def power (base : Nat) (e : Int) : Nat := Nat.pow base e.toNat

/-- The exponent of the highest power of two that is at most `num / den`, for positive `num`. -/
def binaryExponent (num den : Nat) : Int :=
  let e : Int := (num.log2 : Int) - den.log2
  if den * power 2 e ≤ num * power 2 (-e) then e else e - 1

/-- `num / den` as a whole number, to the even neighbour when two are equally near. -/
def roundHalfEven (num den : Nat) : Nat :=
  let q := num / den
  let twice := 2 * (num % den)
  if twice < den then q
  else if den < twice then q + 1
  else if q % 2 = 0 then q else q + 1

/-- The exponent of the last bit kept for `num / den`. -/
def unitExponent (num den : Nat) : Int := max (binaryExponent num den - 52) (-1074)

/-- Significand and exponent of the value nearest to `num / den`. -/
def significand (num den : Nat) : Nat × Int :=
  let e := unitExponent num den
  (roundHalfEven (num * power 2 (-e)) (den * power 2 e), e)

/-- `m` times the power of two with exponent `e`. -/
def scaled (m : Nat) (e : Int) : Rat := mkRat (m * power 2 e) (power 2 (-e))

/-- The floating point value nearest to a rational. -/
def nearest (q : Rat) : Number :=
  if q.num = 0 then .finite 0
  else
    let (m, e) := significand q.num.natAbs q.den
    let magnitude := scaled m e
    if (power 2 1024 : Rat) ≤ magnitude then .infinite (q.num < 0)
    else .finite (if q.num < 0 then -magnitude else magnitude)

/-- The rational of the nearest value; one that is too large for any value stays as it is. -/
def rounded (q : Rat) : Rat :=
  match nearest q with
  | .finite r => r
  | _ => q

def ofInt (n : Int) : Number := nearest n

/-- The value nearest to `mantissa` times ten to the power `exponent`.  Exponents that no
significant digit can bring back into range are cut short. -/
def ofDecimal (mantissa : Int) (exponent : Int) : Number :=
  let digits : Int := (Nat.toDigits 10 mantissa.natAbs).length
  if mantissa = 0 then .finite 0
  else if 400 < exponent + digits then .infinite (mantissa < 0)
  else if exponent + digits < -400 then .finite 0
  else nearest (mkRat (mantissa * power 10 exponent) (power 10 (-exponent)))

/-! ## Tests -/

def isFinite : Number → Bool
  | .finite _ => true
  | _ => false

def atLeast (n : Nat) : Number → Bool
  | .finite q => (n : Rat) ≤ q
  | .infinite negative => !negative
  | .nan => false

def isNat (n : Nat) : Number → Bool
  | .finite q => q == (n : Rat)
  | _ => false

def isBelow (n : Nat) : Number → Bool
  | .finite q => q < (n : Rat)
  | .infinite negative => negative
  | .nan => false

def isAbove (n : Nat) : Number → Bool
  | .finite q => (n : Rat) < q
  | .infinite negative => !negative
  | .nan => false

/-- A number rounded down, as a count: none below zero, and none for a value that is not finite. -/
def count : Number → Nat
  | .finite q => q.floor.toNat
  | _ => 0

end Number

end BulkTransfer
