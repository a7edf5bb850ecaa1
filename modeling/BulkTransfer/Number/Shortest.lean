import BulkTransfer.Number

/-!
# Shortest decimals

A finite number is written with the fewest significant digits that read back as the same number,
and of those with the digits nearest to it, the even ones when two are equally near.  `decimal?`
looks for the first decimal grid that has a point among the rationals that round to the number;
`Layout` says how the digits are set out.
-/

namespace BulkTransfer

namespace Number

/-! ## The rationals that round to a number -/

/-- An interval of positive rationals over a common denominator, with or without its ends. -/
structure Interval where
  lower : Nat
  value : Nat
  upper : Nat
  den : Nat
  closed : Bool

/-- The rationals that round to the positive number `num / den`.  Below a power of two the
neighbour is only half as far. -/
def readBack (num den : Nat) : Interval :=
  let (m, e) := significand num den
  let below := if m = power 2 52 ∧ -1074 < e then 1 else 2
  { lower := (4 * m - below) * power 2 e
    value := 4 * m * power 2 e
    upper := (4 * m + 2) * power 2 e
    den := 4 * power 2 (-e)
    closed := m % 2 = 0 }

namespace Interval

/-- Whether `c` grid steps of ten to the power `grid` lie in the interval. -/
def holds (i : Interval) (grid : Int) (c : Nat) : Bool :=
  let point := c * power 10 grid * i.den
  let lower := i.lower * power 10 (-grid)
  let upper := i.upper * power 10 (-grid)
  if i.closed then lower ≤ point && point ≤ upper else lower < point && point < upper

/-- The grid point at or below the value. -/
def floorOn (i : Interval) (grid : Int) : Nat :=
  i.value * power 10 (-grid) / (i.den * power 10 grid)

/-- The grid point at or below the value or the next one, whichever is nearer; of two equally near
the even one. -/
def nearestOn (i : Interval) (grid : Int) : Nat :=
  roundHalfEven (i.value * power 10 (-grid)) (i.den * power 10 grid)

/-- The point of a grid that reads back, the nearer one when there are two. -/
def pointOn? (i : Interval) (grid : Int) : Option Nat :=
  let c := i.floorOn grid
  match i.holds grid c, i.holds grid (c + 1) with
  | true, true => some (i.nearestOn grid)
  | true, false => some c
  | false, true => some (c + 1)
  | false, false => none

/-- The first grid, from coarse to fine, with a point that reads back. -/
def search (i : Interval) : Nat → Int → Option (Nat × Int)
  | 0, _ => none
  | tries + 1, grid =>
    match i.pointOn? grid with
    | some c => some (c, grid)
    | none => search i tries (grid - 1)

end Interval

def decimalExponent (num den : Nat) : Int :=
  if den ≤ num then ((Nat.toDigits 10 (num / den)).length : Int) - 1
  else
    let inverse := den / num
    let digits : Int := (Nat.toDigits 10 inverse).length
    if den % num = 0 ∧ inverse = power 10 (digits - 1) then 1 - digits else -digits

/-- Whole number and power of ten of the shortest decimal of a positive number. -/
def decimal? (num den : Nat) : Option (Nat × Int) :=
  (readBack num den).search 17 (decimalExponent num den)

/-! ## Layout -/

/-- How digits are set out: from which exponent down and from which up the number is written with
a power of ten. -/
structure Layout where
  smallest : Int
  largest : Int

/-- Numbers are written positionally from a millionth up to below ten to the power 21. -/
def layout : Layout := ⟨-7, 21⟩

/-- The digits of a whole number without the zeros at its end, and how many those are. -/
def stripZeros (digits : Text) : Text × Nat :=
  let kept := Text.dropRightWhile (· == Text.unit '0') digits
  (kept, digits.length - kept.length)

/-- Digits followed by `n` zeros. -/
def zeros (n : Nat) : Text := List.replicate n (Text.unit '0')

/-- The text of digits whose first one has the decimal exponent `e`. -/
def Layout.render (l : Layout) (digits : Text) (e : Int) : Text :=
  if l.smallest < e ∧ e < l.largest then
    if e < 0 then "0." ++ zeros (-e - 1).toNat ++ digits
    else
      let whole := e.toNat + 1
      if digits.length ≤ whole then digits ++ zeros (whole - digits.length)
      else digits.take whole ++ "." ++ digits.drop whole
  else
    let fraction : Text := match digits with
      | first :: second :: rest => first :: (Text.ofString "." ++ second :: rest)
      | short => short
    let sign : Text := if e < 0 then "-" else "+"
    fraction ++ "e" ++ sign ++ Text.ofNat e.natAbs

def renderPositive (num den : Nat) : Text :=
  match decimal? num den with
  | some (c, grid) =>
    let (digits, dropped) := stripZeros (Text.ofNat c)
    layout.render digits (grid + dropped + digits.length - 1)
  | none => []

def render : Number → Text
  | .nan => "NaN"
  | .infinite negative => if negative then "-Infinity" else "Infinity"
  | .finite q =>
    if q.num = 0 then "0"
    else if q.num < 0 then "-" ++ renderPositive q.num.natAbs q.den
    else renderPositive q.num.natAbs q.den

end Number

end BulkTransfer
