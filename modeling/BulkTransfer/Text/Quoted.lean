import BulkTransfer.Text.Utf8

/-!
# Quoted text

Quoted text shows every unit: control units, backslashes, the quote in use and surrogates that
stand alone are escaped.  The quote is one that the text does not hold, if there is one.  Long text
is quoted line by line, and `excerpt` cuts what is still too long.
-/

namespace BulkTransfer

namespace Text

/-! ## Quotes -/

def singleQuote : UInt16 := 0x27

/-- The quote for text that holds a single one. -/
def doubleQuote : UInt16 := 0x22

/-- The quote for text that holds both others. -/
def backQuote : UInt16 := 0x60

/-- What back quotes would read as more than text. -/
def insertion : Text := "$\x7b"

/-- The quote for a text: the first of the three that needs no escape in it, else the single one. -/
def quoteFor (t : Text) : UInt16 :=
  if !t.contains singleQuote then singleQuote
  else if !t.contains doubleQuote then doubleQuote
  else if !t.contains backQuote && !hasPart insertion t then backQuote
  else singleQuote

/-! ## Escapes -/

/-- The last digits of a number to base sixteen, above nine counted on from a given letter. -/
def hex (letter : Char) : Nat → Nat → Text
  | 0, _ => []
  | digits + 1, n =>
    let d := n % 16
    hex letter digits (n / 16) ++
      [if d < 10 then unit '0' + UInt16.ofNat d else unit letter + UInt16.ofNat (d - 10)]

/-- The control units that have an escape of one letter. -/
def letterEscapes : List (UInt16 × Text) :=
  [(0x08, "b"), (0x09, "t"), (0x0A, "n"), (0x0C, "f"), (0x0D, "r")]

def backslash : UInt16 := 0x5C

/-- The text that stands for one unit between given quotes. -/
def escapeUnit (quote u : UInt16) : Text :=
  match letterEscapes.lookup u with
  | some letter => backslash :: letter
  | none =>
    if u = backslash ∨ u = quote then [backslash, u]
    else if u < 0x20 ∨ (0x7F ≤ u ∧ u ≤ 0x9F) then backslash :: unit 'x' :: hex 'A' 2 u.toNat
    else if isHighSurrogate u || isLowSurrogate u then
      backslash :: unit 'u' :: hex 'a' 4 u.toNat
    else [u]

/-- The text with its units escaped; a pair of surrogates stays as it is. -/
def escape (quote : UInt16) : Text → Text
  | [] => []
  | [u] => escapeUnit quote u
  | u :: v :: rest =>
    if isHighSurrogate u && isLowSurrogate v then u :: v :: escape quote rest
    else escapeUnit quote u ++ escape quote (v :: rest)

def quoted (t : Text) : Text := quoteFor t :: escape (quoteFor t) t ++ [quoteFor t]

/-! ## Long text -/

/-- The lines of a text, each with the line feed that ends it. -/
def lines : Text → List Text
  | [] => []
  | u :: rest =>
    match u == unit '\n', lines rest with
    | false, line :: more => (u :: line) :: more
    | _, more => [u] :: more

/-- The length from which text is quoted line by line. -/
def lineWidth : Nat := 125

/-- The text in quotes, line by line when it is long. -/
def quotedLines (t : Text) : Text :=
  if t.length < lineWidth then quoted t else joinWith " +\n  " ((lines t).map quoted)

/-- The length at which an excerpt ends. -/
def excerptLimit : Nat := 128

/-- The start of a text, with dots for what is left out. -/
def excerpt (t : Text) : Text :=
  if excerptLimit < t.length then t.take excerptLimit ++ "..." else t

end Text

end BulkTransfer
