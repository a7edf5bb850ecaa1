import BulkTransfer.Text

/-!
# The bytes of a text

A text is stored as UTF-8.  A pair of surrogates is one character of four bytes; a surrogate that
stands alone is stored as the replacement character.  So not every text comes back: `stored` is what
reading the bytes gives, and has the same bytes (`utf8_stored`).
-/

namespace BulkTransfer

/-- Content of files and objects. -/
abbrev Bytes := List UInt8

namespace Text

def utf8OfCode (n : Nat) : Bytes :=
  if n < 0x80 then [UInt8.ofNat n]
  else if n < 0x800 then [UInt8.ofNat (0xC0 + n / 0x40), UInt8.ofNat (0x80 + n % 0x40)]
  else if n < 0x10000 then
    [UInt8.ofNat (0xE0 + n / 0x1000), UInt8.ofNat (0x80 + n / 0x40 % 0x40),
      UInt8.ofNat (0x80 + n % 0x40)]
  else
    [UInt8.ofNat (0xF0 + n / 0x40000), UInt8.ofNat (0x80 + n / 0x1000 % 0x40),
      UInt8.ofNat (0x80 + n / 0x40 % 0x40), UInt8.ofNat (0x80 + n % 0x40)]

def isHighSurrogate (u : UInt16) : Bool := 0xD800 ≤ u && u ≤ 0xDBFF

def isLowSurrogate (u : UInt16) : Bool := 0xDC00 ≤ u && u ≤ 0xDFFF

/-- The character that stands for what is none. -/
def replacement : UInt16 := 0xFFFD

/-- What is stored for a unit that is not in a pair. -/
def unpaired (u : UInt16) : UInt16 :=
  if isHighSurrogate u || isLowSurrogate u then replacement else u

/-- The code points of a text, with the replacement character for a surrogate that stands alone. -/
def codePoints : Text → List Nat
  | [] => []
  | [u] => [(unpaired u).toNat]
  | u :: v :: rest =>
    if isHighSurrogate u && isLowSurrogate v then
      (0x10000 + (u.toNat - 0xD800) * 0x400 + (v.toNat - 0xDC00)) :: codePoints rest
    else (unpaired u).toNat :: codePoints (v :: rest)

def utf8 (t : Text) : Bytes := (codePoints t).flatMap utf8OfCode

/-- The text that its bytes are read as: surrogates that stand alone are replaced. -/
def stored : Text → Text
  | [] => []
  | [u] => [unpaired u]
  | u :: v :: rest =>
    if isHighSurrogate u && isLowSurrogate v then u :: v :: stored rest
    else unpaired u :: stored (v :: rest)

/-! ## Small laws -/

theorem unpaired_not_high (u : UInt16) : isHighSurrogate (unpaired u) = false := by
  rw [unpaired]
  split
  · rfl
  · next h => simp_all

theorem unpaired_unpaired (u : UInt16) : unpaired (unpaired u) = unpaired u := by
  by_cases h : isHighSurrogate u || isLowSurrogate u
  · have : unpaired u = replacement := if_pos h
    rw [this]
    rfl
  · have : unpaired u = u := if_neg h
    rw [this, this]

/-- A unit that is stored by itself gives one code point. -/
theorem codePoints_unpaired_cons (u : UInt16) (t : Text) :
    codePoints (unpaired u :: t) = (unpaired u).toNat :: codePoints t := by
  cases t with
  | nil => simp [codePoints, unpaired_unpaired]
  | cons v rest => simp [codePoints, unpaired_not_high, unpaired_unpaired]

theorem codePoints_stored (t : Text) : codePoints (stored t) = codePoints t := by
  fun_induction stored t with
  | case1 => rfl
  | case2 u => rw [codePoints_unpaired_cons, codePoints, codePoints]
  | case3 u v rest h ih => simp [codePoints, h, ih]
  | case4 u v rest h ih => rw [codePoints_unpaired_cons, ih, codePoints, if_neg h]

/-- Text and what it is read back as have the same bytes. -/
theorem utf8_stored (t : Text) : utf8 (stored t) = utf8 t := by
  rw [utf8, utf8, codePoints_stored]

end Text

end BulkTransfer
