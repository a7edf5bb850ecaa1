/-!
# Text

Text is a list of 16-bit units, so a character outside the basic plane is a pair of surrogates and
a cut may split it.  Length, order and search go unit by unit.  The order of `Text` is the
lexicographic one of lists.
-/

namespace BulkTransfer

/-- Text as 16-bit units. -/
abbrev Text := List UInt16

namespace Text

/-! ## Literals -/

/-- The units of one character: itself, or a high and a low surrogate. -/
def unitsOf (c : Char) : Text :=
  if c.toNat < 0x10000 then [UInt16.ofNat c.toNat]
  else
    [UInt16.ofNat (0xD800 + (c.toNat - 0x10000) / 0x400),
      UInt16.ofNat (0xDC00 + (c.toNat - 0x10000) % 0x400)]

def ofString (s : String) : Text := s.toList.flatMap unitsOf

instance : Coe String Text := ⟨ofString⟩

def ofNat (n : Nat) : Text := (Nat.toDigits 10 n).flatMap unitsOf

/-! ## Classes of units -/

/-- The unit of an ASCII character. -/
def unit (c : Char) : UInt16 := UInt16.ofNat c.toNat

def slash : UInt16 := 0x2F

def space : UInt16 := 0x20

/-- Blanks: the ASCII ones, the spaces of the basic plane, both separators and the byte order
mark. -/
def isBlank (u : UInt16) : Bool :=
  (0x09 ≤ u && u ≤ 0x0D) || u == 0x20 || u == 0xA0 || u == 0x1680 || (0x2000 ≤ u && u ≤ 0x200A) ||
    u == 0x2028 || u == 0x2029 || u == 0x202F || u == 0x205F || u == 0x3000 || u == 0xFEFF

/-- Units from `lo` to `hi`, both given as characters. -/
def between (lo hi : Char) (u : UInt16) : Bool := unit lo ≤ u && u ≤ unit hi

def isDigit (u : UInt16) : Bool := between '0' '9' u

def isLower (u : UInt16) : Bool := between 'a' 'z' u

def isUpper (u : UInt16) : Bool := between 'A' 'Z' u

/-! ## Trimming and search -/

/-- The text without its last units that satisfy `p`. -/
def dropRightWhile (p : UInt16 → Bool) (t : Text) : Text := (t.reverse.dropWhile p).reverse

def trim (t : Text) : Text := dropRightWhile isBlank (t.dropWhile isBlank)

def hasPart (part : Text) : Text → Bool
  | [] => part.isEmpty
  | u :: rest => part.isPrefixOf (u :: rest) || hasPart part rest

/-- The pieces between the occurrences of a unit; one piece when there is none. -/
def split (sep : UInt16) : Text → List Text
  | [] => [[]]
  | u :: rest =>
    match split sep rest with
    | [] => [[]]
    | piece :: pieces => if u = sep then [] :: piece :: pieces else (u :: piece) :: pieces

/-- The pieces put together with a text between them. -/
def joinWith (sep : Text) : List Text → Text
  | [] => []
  | [piece] => piece
  | piece :: pieces => piece ++ sep ++ joinWith sep pieces

/-- A text, or another one in place of the empty text. -/
def orElse (t fallback : Text) : Text := if t.isEmpty then fallback else t

/-! ## Small laws -/

theorem dropRightWhile_append (p : UInt16 → Bool) (t : Text) (u : UInt16) :
    dropRightWhile p (t ++ [u]) = if p u then dropRightWhile p t else t ++ [u] := by
  simp only [dropRightWhile, List.reverse_append, List.reverse_cons, List.reverse_nil,
    List.nil_append, List.singleton_append, List.dropWhile_cons]
  split <;> simp

theorem split_ne_nil (sep : UInt16) (t : Text) : split sep t ≠ [] := by
  cases t with
  | nil => simp [split]
  | cons u rest =>
    rw [split]
    split
    · simp
    · split <;> simp

/-- Splitting loses nothing: the pieces joined by the separator are the text. -/
theorem joinWith_split (sep : UInt16) (t : Text) : joinWith [sep] (split sep t) = t := by
  induction t with
  | nil => rfl
  | cons u rest ih =>
    rw [split]
    split
    · next h => exact absurd h (split_ne_nil sep rest)
    · next piece pieces h =>
      rw [h] at ih
      split
      · next hu => subst hu; simp [joinWith, ih]
      · cases pieces with
        | nil => simpa [joinWith] using ih
        | cons next more =>
          rw [joinWith] at ih ⊢
          · simpa using ih
          · simp
          · simp

end Text

end BulkTransfer
