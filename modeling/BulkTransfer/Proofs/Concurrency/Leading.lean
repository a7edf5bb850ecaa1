import Mathlib.Data.List.TakeWhile
import Mathlib.Data.Nat.Digits.Defs
import BulkTransfer.Concurrency
import BulkTransfer.Proofs.Text.Classes

/-!
# The whole number that text starts with

`StartsWith` says which whole number a text starts with: after blanks, what an optional sign and the
longest run of digits write that stands there.  This is the number that is read, whatever follows it
and however many digits it has (`leading?_eq_some_iff`).
-/

namespace BulkTransfer

namespace Concurrency

open Text

/-! ## Numerals -/

/-- The number that digits write, the last one being that of the units. -/
def numeral (ds : Text) : Nat := Nat.ofDigits 10 (ds.reverse.map fun u => u.toNat - 48)

/-- The whole numbers that a count is with a sign in front. -/
inductive Signed (n : Nat) : Text → Int → Prop
  | bare : Signed n [] n
  | plus : Signed n [unit '+'] n
  | minus : Signed n [unit '-'] (-n)

/-- Some digits, and a text after them that does not begin with one. -/
structure IsRun (ds rest : Text) : Prop where
  nonempty : ds ≠ []
  digits : ∀ u ∈ ds, u ∈ digits
  longest : ∀ u ∈ rest.head?, u ∉ Text.digits

/-- A text starts with a whole number when that is what an optional sign and the longest run of
digits write, after blanks. -/
def StartsWith (t : Text) (v : Int) : Prop :=
  ∃ blanks sign ds rest, t = blanks ++ (sign ++ (ds ++ rest)) ∧ (∀ u ∈ blanks, isBlank u = true) ∧
    IsRun ds rest ∧ Signed (numeral ds) sign v

theorem valueOf_eq_numeral (ds : Text) : valueOf ds = numeral ds := by
  unfold valueOf numeral
  rw [Nat.ofDigits_eq_foldr, List.foldr_map, List.foldr_reverse]
  congr 1
  funext n u
  exact Nat.add_comm _ _

/-! ## Runs of digits -/

variable {t ds rest : Text} {n : Nat} {u : UInt16}

theorem IsRun.takeWhile_eq (h : IsRun ds rest) : (ds ++ rest).takeWhile isDigit = ds := by
  have hrest : rest.takeWhile isDigit = [] := by
    cases rest with
    | nil => rfl
    | cons u more => exact List.takeWhile_cons_of_neg (mt isDigit_iff_mem.1 (h.longest u rfl))
  rw [List.takeWhile_append_of_pos fun u hu => isDigit_iff_mem.2 (h.digits u hu), hrest,
    List.append_nil]

/-- A text is its longest run of digits, if it begins with one, and what follows. -/
theorem isRun_takeWhile (h : t.takeWhile isDigit ≠ []) :
    IsRun (t.takeWhile isDigit) (t.dropWhile isDigit) where
  nonempty := h
  digits := fun u hu => isDigit_iff_mem.1 (List.mem_takeWhile_imp hu)
  longest := fun u hu hdigit => by
    have hnot := List.head?_dropWhile_not isDigit t
    rw [Option.mem_def.1 hu] at hnot
    rw [← isDigit_iff_mem, hnot] at hdigit
    exact Bool.false_ne_true hdigit

theorem unsigned?_eq_some_iff :
    unsigned? t = some n ↔ ∃ ds rest, t = ds ++ rest ∧ IsRun ds rest ∧ numeral ds = n := by
  unfold unsigned?
  constructor
  · intro h
    split at h
    · cases h
    · next hne =>
      refine ⟨t.takeWhile isDigit, t.dropWhile isDigit, List.takeWhile_append_dropWhile.symm,
        isRun_takeWhile hne, ?_⟩
      rw [← valueOf_eq_numeral]
      exact Option.some.inj h
  · rintro ⟨ds, rest, rfl, hrun, rfl⟩
    rw [hrun.takeWhile_eq]
    split
    · next hnil => exact absurd rfl hrun.nonempty
    · rw [valueOf_eq_numeral]

/-! ## Signs and blanks -/

theorem toNat_of_isDigit (h : u ∈ digits) : 48 ≤ u.toNat ∧ u.toNat ≤ 57 :=
  isDigit_iff_toNat.1 (isDigit_iff_mem.2 h)

theorem ne_sign_of_mem_digits (h : u ∈ digits) : u ≠ unit '-' ∧ u ≠ unit '+' := by
  have hbounds := toNat_of_isDigit h
  constructor
  all_goals
    rintro rfl
    revert hbounds
    decide

theorem isBlank_of_mem_digits (h : u ∈ digits) : isBlank u = false := by
  have hall : digits.all (fun u => !isBlank u) = true := by decide +kernel
  simpa using List.all_eq_true.1 hall u h

/-- What a signed number begins with is no blank. -/
theorem Signed.isBlank_head {sign : Text} {v : Int} (hsign : Signed n sign v)
    (hrun : IsRun ds rest) : ∀ u ∈ (sign ++ (ds ++ rest)).head?, isBlank u = false := by
  obtain ⟨first, more, rfl⟩ := List.exists_cons_of_ne_nil hrun.nonempty
  intro u hu
  cases hsign with
  | bare =>
    cases hu
    exact isBlank_of_mem_digits (hrun.digits _ List.mem_cons_self)
  | plus =>
    cases hu
    decide
  | minus =>
    cases hu
    decide

theorem dropWhile_isBlank {blanks s : Text} (hblanks : ∀ u ∈ blanks, isBlank u = true)
    (hs : ∀ u ∈ s.head?, isBlank u = false) : (blanks ++ s).dropWhile isBlank = s := by
  rw [List.dropWhile_append_of_pos hblanks]
  cases s with
  | nil => rfl
  | cons u more =>
    apply List.dropWhile_cons_of_neg
    rw [hs u rfl]
    exact Bool.false_ne_true

/-! ## The number that is read -/

theorem exists_signed_of_signed? {s : Text} {v : Int} (h : signed? s = some v) :
    ∃ sign ds rest, s = sign ++ (ds ++ rest) ∧ IsRun ds rest ∧ Signed (numeral ds) sign v := by
  cases s with
  | nil => cases h
  | cons u more =>
    rw [signed?] at h
    split at h
    · next hminus =>
      obtain ⟨n, hn, rfl⟩ := Option.map_eq_some_iff.1 h
      obtain ⟨ds, rest, rfl, hrun, rfl⟩ := unsigned?_eq_some_iff.1 hn
      exact ⟨[u], ds, rest, rfl, hrun, hminus ▸ .minus⟩
    · split at h
      · next hplus =>
        obtain ⟨n, hn, rfl⟩ := Option.map_eq_some_iff.1 h
        obtain ⟨ds, rest, rfl, hrun, rfl⟩ := unsigned?_eq_some_iff.1 hn
        exact ⟨[u], ds, rest, rfl, hrun, hplus ▸ .plus⟩
      · obtain ⟨n, hn, rfl⟩ := Option.map_eq_some_iff.1 h
        obtain ⟨ds, rest, hds, hrun, rfl⟩ := unsigned?_eq_some_iff.1 hn
        exact ⟨[], ds, rest, hds, hrun, .bare⟩

theorem signed?_of_signed {sign : Text} {v : Int} (hrun : IsRun ds rest)
    (hsign : Signed (numeral ds) sign v) : signed? (sign ++ (ds ++ rest)) = some v := by
  have hunsigned : unsigned? (ds ++ rest) = some (numeral ds) :=
    unsigned?_eq_some_iff.2 ⟨ds, rest, rfl, hrun, rfl⟩
  cases hsign with
  | bare =>
    obtain ⟨first, more, rfl⟩ := List.exists_cons_of_ne_nil hrun.nonempty
    obtain ⟨hminus, hplus⟩ := ne_sign_of_mem_digits (hrun.digits first List.mem_cons_self)
    rw [List.nil_append, List.cons_append, signed?, if_neg hminus, if_neg hplus]
    exact congrArg (Option.map Int.ofNat) hunsigned
  | plus =>
    rw [List.singleton_append, signed?, if_neg (by decide), if_pos rfl]
    exact congrArg (Option.map Int.ofNat) hunsigned
  | minus =>
    rw [List.singleton_append, signed?, if_pos rfl]
    exact congrArg (Option.map fun n : Nat => -(n : Int)) hunsigned

/-- The number that is read is the one that the text starts with. -/
theorem leading?_eq_some_iff {v : Int} : leading? t = some v ↔ StartsWith t v := by
  unfold leading?
  constructor
  · intro h
    obtain ⟨sign, ds, rest, hs, hrun, hsign⟩ := exists_signed_of_signed? h
    refine ⟨t.takeWhile isBlank, sign, ds, rest, ?_, fun u => List.mem_takeWhile_imp, hrun, hsign⟩
    rw [← hs, List.takeWhile_append_dropWhile]
  · rintro ⟨blanks, sign, ds, rest, rfl, hblanks, hrun, hsign⟩
    rw [dropWhile_isBlank hblanks (hsign.isBlank_head hrun)]
    exact signed?_of_signed hrun hsign

theorem StartsWith.ne_nil {v : Int} (h : StartsWith t v) : t ≠ [] := by
  rintro rfl
  cases leading?_eq_some_iff.2 h

end Concurrency

end BulkTransfer
