import BulkTransfer.Text

/-!
# Splitting and joining text

The pieces of a text hold no separator (`not_mem_of_mem_split`), and pieces without a separator come
back from their join (`split_joinWith`).  Splitting goes piece by piece over a separator
(`split_append_cons`).
-/

namespace BulkTransfer

namespace Text

variable {sep : UInt16}

theorem split_cons_self (t : Text) : split sep (sep :: t) = [] :: split sep t := by
  rw [split]
  split
  · next h => exact absurd h (split_ne_nil sep t)
  · next piece pieces h => rw [if_pos rfl, h]

theorem split_cons_of_ne {u : UInt16} {t piece : Text} {pieces : List Text} (h : u ≠ sep)
    (ht : split sep t = piece :: pieces) : split sep (u :: t) = (u :: piece) :: pieces := by
  rw [split, ht]
  exact if_neg h

theorem not_mem_of_mem_split {t piece : Text} (h : piece ∈ split sep t) : sep ∉ piece := by
  induction t generalizing piece with
  | nil =>
    rw [split, List.mem_singleton] at h
    simp [h]
  | cons u rest ih =>
    rcases hs : split sep rest with _ | ⟨head, tail⟩
    · exact absurd hs (split_ne_nil sep rest)
    · by_cases hu : u = sep
      · rw [hu, split_cons_self] at h
        rcases List.mem_cons.1 h with rfl | h
        · exact List.not_mem_nil
        · exact ih h
      · rw [split_cons_of_ne hu hs] at h
        rcases List.mem_cons.1 h with rfl | h
        · have hhead : sep ∉ head := ih (by simp [hs])
          simp [hhead, Ne.symm hu]
        · exact ih (by simp [hs, h])

theorem split_of_not_mem {t : Text} (h : sep ∉ t) : split sep t = [t] := by
  induction t with
  | nil => rfl
  | cons u rest ih =>
    rw [List.mem_cons, not_or] at h
    exact split_cons_of_ne (Ne.symm h.1) (ih h.2)

/-- A separator ends the pieces before it and begins those after it. -/
theorem split_append_cons (s t : Text) :
    split sep (s ++ sep :: t) = split sep s ++ split sep t := by
  induction s with
  | nil => exact split_cons_self t
  | cons u rest ih =>
    rcases hs : split sep rest with _ | ⟨head, tail⟩
    · exact absurd hs (split_ne_nil sep rest)
    · by_cases hu : u = sep
      · rw [hu, List.cons_append, split_cons_self, split_cons_self, ih, List.cons_append]
      · rw [hs, List.cons_append] at ih
        rw [split_cons_of_ne hu hs, List.cons_append, split_cons_of_ne hu ih, List.cons_append]

theorem joinWith_cons_cons (piece next : Text) (rest : List Text) :
    joinWith [sep] (piece :: next :: rest) = piece ++ sep :: joinWith [sep] (next :: rest) := by
  rw [joinWith]
  · simp
  · simp

/-- Pieces that hold no separator come back from their join. -/
theorem split_joinWith {pieces : List Text} (hne : pieces ≠ [])
    (h : ∀ piece ∈ pieces, sep ∉ piece) :
    split sep (joinWith [sep] pieces) = pieces := by
  induction pieces with
  | nil => exact absurd rfl hne
  | cons piece rest ih =>
    have hpiece : sep ∉ piece := h piece List.mem_cons_self
    cases rest with
    | nil => exact split_of_not_mem hpiece
    | cons next more =>
      have hrest := ih (List.cons_ne_nil _ _) fun q hq => h q (List.mem_cons_of_mem _ hq)
      rw [joinWith_cons_cons, split_append_cons, split_of_not_mem hpiece, hrest]
      rfl

end Text

end BulkTransfer
