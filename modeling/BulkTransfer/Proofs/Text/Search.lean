import BulkTransfer.Text

/-!
# Searching text

`hasPart` finds a text wherever it stands in another one (`hasPart_iff`).  A text that does not hold
some unit stands in two texts with this unit between them exactly when it stands in one of the two
(`infix_append_cons_iff`).
-/

namespace BulkTransfer

namespace Text

theorem hasPart_iff (part t : Text) : hasPart part t = true ↔ part <:+: t := by
  induction t with
  | nil => rw [hasPart, List.isEmpty_iff, List.infix_nil]
  | cons u rest ih =>
    rw [hasPart, Bool.or_eq_true, ih, List.isPrefixOf_iff_prefix, List.infix_cons_iff]

/-- A text without a unit does not go on over it. -/
theorem eq_nil_of_prefix_cons {part t : Text} {u : UInt16} (hu : u ∉ part) (h : part <+: u :: t) :
    part = [] := by
  rcases List.prefix_cons_iff.1 h with hnil | ⟨rest, rfl, -⟩
  · exact hnil
  · exact absurd List.mem_cons_self hu

theorem infix_append_cons_iff {part : Text} {u : UInt16} (hu : u ∉ part) (s t : Text) :
    part <:+: s ++ u :: t ↔ part <:+: s ∨ part <:+: t := by
  constructor
  · intro h
    rcases List.infix_append_iff.1 h with hs | ht | ⟨first, last, rfl, hfirst, hlast⟩
    · exact .inl hs
    · rcases List.infix_cons_iff.1 ht with hstart | ht
      · rw [eq_nil_of_prefix_cons hu hstart]
        exact .inl List.nil_infix
      · exact .inr ht
    · have hlast := eq_nil_of_prefix_cons (fun h => hu (List.mem_append_right _ h)) hlast
      rw [hlast, List.append_nil]
      exact .inl hfirst.isInfix
  · rintro (hs | ht)
    · exact hs.trans (List.prefix_append _ _).isInfix
    · exact (List.infix_cons ht).trans (List.suffix_append _ _).isInfix

end Text

end BulkTransfer
