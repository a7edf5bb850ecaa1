import BulkTransfer.Proofs.Path.Stored

/-!
# The text of a path and of the directories above it

The text of a path begins with the text of any directory above it (`exists_text_append`), with a
slash where it goes on, so its bytes begin with that text's bytes (`utf8_append_slash`).  The parent
text of a path is the text of the path without its last component (`parentText_text`).
-/

namespace BulkTransfer

namespace Text

variable {p : UInt16 → Bool}

theorem dropRightWhile_append_of_all {t : Text} (s : Text) (h : ∀ u ∈ t, p u = true) :
    dropRightWhile p (s ++ t) = dropRightWhile p s := by
  rw [dropRightWhile, List.reverse_append, List.dropWhile_append_of_pos, dropRightWhile]
  exact fun u hu => h u (List.mem_reverse.1 hu)

theorem dropRightWhile_eq_self {t : Text} (h : ∀ u ∈ t.getLast?, p u = false) :
    dropRightWhile p t = t := by
  rcases List.eq_nil_or_concat t with rfl | ⟨s, u, rfl⟩
  · rfl
  · have hu : p u = false := h u (by simp)
    rw [List.concat_eq_append, dropRightWhile_append, hu, if_neg Bool.false_ne_true]

theorem isLowSurrogate_slash : isLowSurrogate slash = false := by decide +kernel

/-- No surrogate stands in a pair over a slash, so the bytes of a text break there. -/
theorem codePoints_append_slash (s t : Text) :
    codePoints (s ++ slash :: t) = codePoints s ++ codePoints (slash :: t) := by
  fun_induction codePoints s with
  | case1 => rfl
  | case2 u =>
    rw [List.singleton_append, codePoints, isLowSurrogate_slash, Bool.and_false,
      if_neg Bool.false_ne_true]
    rfl
  | case3 u v rest hpair ih =>
    rw [List.cons_append, List.cons_append, codePoints, if_pos hpair, ih]
    rfl
  | case4 u v rest hpair ih =>
    rw [List.cons_append, List.cons_append, codePoints, if_neg hpair, ← List.cons_append, ih]
    rfl

theorem utf8_append_slash (s t : Text) : utf8 (s ++ slash :: t) = utf8 s ++ utf8 (slash :: t) := by
  rw [utf8, codePoints_append_slash, List.flatMap_append, utf8, utf8]

end Text

namespace Path

theorem joinWith_append {p q : Path} (hp : p ≠ []) (hq : q ≠ []) :
    Text.joinWith [Text.slash] (p ++ q) =
      Text.joinWith [Text.slash] p ++ Text.slash :: Text.joinWith [Text.slash] q := by
  induction p with
  | nil => exact absurd rfl hp
  | cons name rest ih =>
    cases rest with
    | nil =>
      obtain ⟨first, more, rfl⟩ := List.exists_cons_of_ne_nil hq
      exact Text.joinWith_cons_cons name first more
    | cons next more =>
      rw [List.cons_append, List.cons_append, Text.joinWith_cons_cons, ← List.cons_append,
        ih (List.cons_ne_nil _ _), Text.joinWith_cons_cons, List.append_assoc, List.cons_append]

/-- The text of a path below a directory goes on after the directory's text with a slash; the text
of the root is this slash itself. -/
theorem exists_text_append (p : Path) {q : Path} (hq : q ≠ []) :
    ∃ start, text (p ++ q) = start ++ text q ∧ (text p = start ∨ start = [] ∧ p = []) := by
  by_cases hp : p = []
  · exact ⟨[], by rw [hp]; rfl, .inr ⟨rfl, hp⟩⟩
  · refine ⟨text p, ?_, .inl rfl⟩
    rw [text, joinWith_append hp hq, text, text]
    rfl

theorem text_singleton (name : Text) : text [name] = Text.slash :: name := rfl

/-- The parent text of a path in normal form is the text of the path without its last component. -/
theorem parentText_text {p : Path} {name : Text} (hname : IsName name) :
    parentText (text (p ++ [name])) = text p := by
  obtain ⟨start, htext, hstart⟩ := exists_text_append p (q := [name]) (List.cons_ne_nil _ _)
  have hne : ∀ u ∈ name, u ≠ Text.slash := fun u hu e => hname.no_slash (e ▸ hu)
  rw [text_singleton] at htext
  -- Nothing is cut off at the end, and then the last component is.
  have hbody : Text.dropRightWhile (· == Text.slash) (text (p ++ [name])) = text (p ++ [name]) := by
    refine Text.dropRightWhile_eq_self fun u hu => ?_
    have hmem : u ∈ name := by
      obtain ⟨first, rest, rfl⟩ := List.exists_cons_of_ne_nil hname.ne_nil
      rw [htext, List.getLast?_append, List.getLast?_cons_cons,
        Option.or_of_isSome (by simp)] at hu
      exact List.mem_of_getLast? hu
    simpa using hne u hmem
  have hcut : Text.dropRightWhile (· != Text.slash) (text (p ++ [name])) =
      start ++ [Text.slash] := by
    have hslash : ¬ (Text.slash != Text.slash) = true := by simp
    rw [htext, ← List.singleton_append, ← List.append_assoc,
      Text.dropRightWhile_append_of_all _ fun u hu => by simpa using hne u hu,
      Text.dropRightWhile_append, if_neg hslash]
  rw [parentText, hbody, hcut]
  rcases hstart with hp | ⟨rfl, rfl⟩
  · rw [← hp, text]
    cases Text.joinWith [Text.slash] p with
    | nil => rfl
    | cons u rest =>
      show (Text.slash :: u :: rest ++ [Text.slash]).dropLast = _
      exact List.dropLast_concat
  · rfl

end Path

end BulkTransfer
