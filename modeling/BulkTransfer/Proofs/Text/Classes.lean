import BulkTransfer.Text

/-!
# Classes of units

The units between two characters are those of the characters that stand there, so the digits and the
small letters can be listed (`isDigit_iff_mem`, `isLower_iff_mem`).
-/

namespace BulkTransfer

namespace Text

variable {u : UInt16}

theorem between_iff_toNat (lo hi : Char) :
    between lo hi u = true ↔ (unit lo).toNat ≤ u.toNat ∧ u.toNat ≤ (unit hi).toNat := by
  simp [between, UInt16.le_iff_toNat_le]

/-- The units from one number on, so many of them. -/
def listed (start count : Nat) : Text := (List.range' start count).map UInt16.ofNat

theorem mem_listed_iff {start count : Nat} (h : start + count ≤ UInt16.size) :
    u ∈ listed start count ↔ start ≤ u.toNat ∧ u.toNat < start + count := by
  unfold listed
  rw [List.mem_map]
  constructor
  · rintro ⟨n, hn, rfl⟩
    rw [List.mem_range'_1] at hn
    rw [UInt16.toNat_ofNat_of_lt' (by omega : n < UInt16.size)]
    exact hn
  · intro hu
    exact ⟨u.toNat, List.mem_range'_1.2 hu, UInt16.ofNat_toNat⟩

/-- The ten digits, in their order. -/
def digits : Text := "0123456789"

def smallLetters : Text := "abcdefghijklmnopqrstuvwxyz"

theorem digits_eq_listed : digits = listed 48 10 := by decide +kernel

theorem smallLetters_eq_listed : smallLetters = listed 97 26 := by decide +kernel

theorem isDigit_iff_toNat : isDigit u = true ↔ 48 ≤ u.toNat ∧ u.toNat ≤ 57 :=
  between_iff_toNat '0' '9'

theorem isLower_iff_toNat : isLower u = true ↔ 97 ≤ u.toNat ∧ u.toNat ≤ 122 :=
  between_iff_toNat 'a' 'z'

theorem isDigit_iff_mem : isDigit u = true ↔ u ∈ digits := by
  rw [isDigit_iff_toNat, digits_eq_listed, mem_listed_iff (by decide)]
  omega

theorem isLower_iff_mem : isLower u = true ↔ u ∈ smallLetters := by
  rw [isLower_iff_toNat, smallLetters_eq_listed, mem_listed_iff (by decide)]
  omega

end Text

end BulkTransfer
