import Mathlib.Data.List.DropRight
import BulkTransfer.Text

/-!
# Trimmed text

Trimming leaves a text that neither begins nor ends with a blank (`isTrimmed_trim`), and such a text
is left as it is (`trim_eq_self`).
-/

namespace BulkTransfer

namespace Text

/-- A text that neither begins nor ends with a blank. -/
structure IsTrimmed (t : Text) : Prop where
  head : ∀ u ∈ t.head?, isBlank u = false
  last : ∀ u ∈ t.getLast?, isBlank u = false

theorem trim_eq_rdropWhile (t : Text) : trim t = (t.dropWhile isBlank).rdropWhile isBlank := rfl

theorem isTrimmed_trim (t : Text) : IsTrimmed (trim t) := by
  rw [trim_eq_rdropWhile]
  constructor
  · intro u hu
    obtain ⟨dropped, hsplit⟩ := List.rdropWhile_prefix isBlank (t.dropWhile isBlank)
    have hhead : (t.dropWhile isBlank).head? = some u := by
      rw [← hsplit, List.head?_append, hu, Option.some_or]
    have hnot := List.head?_dropWhile_not isBlank t
    simpa only [hhead] using hnot
  · intro u hu
    obtain ⟨hne, rfl⟩ := List.mem_getLast?_eq_getLast hu
    simpa using List.rdropWhile_last_not isBlank _ hne

theorem trim_eq_self {t : Text} (h : IsTrimmed t) : trim t = t := by
  have hfront : t.dropWhile isBlank = t := by
    cases t with
    | nil => rfl
    | cons u rest => simp [h.head u rfl]
  rw [trim_eq_rdropWhile, hfront, List.rdropWhile_eq_self_iff]
  intro hne
  simp [h.last _ (List.getLast?_eq_some_getLast hne)]

end Text

end BulkTransfer
