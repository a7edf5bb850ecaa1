import Mathlib.Data.List.Chain
import BulkTransfer.Proofs.Naming.Clean
import BulkTransfer.Proofs.Text.Trim

/-!
# Cleaned text

Cleaned text is short, has no control units, and its blanks are single plain ones (`IsClean`).  The
texts that cleaning leaves as they are are those of this kind that have no blank at either end
(`isClean_clean_and_fixed_iff`).

Blanks at the ends go first, before the control units and before the cut.  So a blank behind leading
control units, one in front of trailing control units, and one at the cut stay at an end of the
cleaned text (`ExposesBlank`).  Cleaning once more takes them away, and a third time changes nothing
(`clean_clean`).
-/

namespace BulkTransfer

namespace Text

/-! ## What cleaned text looks like -/

/-- Text as cleaning leaves it: at most 2048 units, no control units, no blanks but plain ones, and
no two blanks in a row. -/
structure IsClean (t : Text) : Prop extends IsSpaced t where
  short : t.length ≤ 2048
  controls : ∀ u ∈ t, ¬ (u ≤ 0x08 ∨ 0x0B ≤ u ∧ u ≤ 0x0C ∨ 0x0E ≤ u ∧ u ≤ 0x1F ∨ u = 0x7F)

variable {s t : Text} {u : UInt16}

theorem isControl_iff : isControl u = true ↔
    u ≤ 0x08 ∨ 0x0B ≤ u ∧ u ≤ 0x0C ∨ 0x0E ≤ u ∧ u ≤ 0x1F ∨ u = 0x7F := by
  simp only [isControl, Bool.or_eq_true, Bool.and_eq_true, decide_eq_true_eq, beq_iff_eq,
    UInt16.le_iff_toNat_le, ← UInt16.toNat_inj, UInt16.reduceToNat]
  omega

theorem isControl_space : isControl space = false := by decide

theorem IsClean.isControl_eq_false (h : IsClean t) (hu : u ∈ t) : isControl u = false :=
  Bool.eq_false_iff.2 fun hcontrol => h.controls u hu (isControl_iff.1 hcontrol)

theorem IsClean.of_isInfix (h : IsClean t) (hs : s <:+: t) : IsClean s where
  toIsSpaced := h.toIsSpaced.of_isInfix hs
  short := hs.length_le.trans h.short
  controls := fun u hu => h.controls u (hs.mem hu)

/-! ## Collapsed blanks -/

/-- What a unit becomes when blanks are collapsed, if it stays. -/
def plainOf (u : UInt16) : UInt16 := if isBlank u then space else u

theorem plainOf_of_isBlank (h : isBlank u = true) : plainOf u = space := if_pos h

theorem plainOf_of_not_isBlank (h : ¬ isBlank u = true) : plainOf u = u := if_neg h

theorem isBlank_plainOf (u : UInt16) : isBlank (plainOf u) = isBlank u := by
  by_cases h : isBlank u = true
  · rw [plainOf_of_isBlank h, isBlank_space, h]
  · rw [plainOf_of_not_isBlank h]

theorem isControl_plainOf (h : isControl u = false) : isControl (plainOf u) = false := by
  unfold plainOf
  split
  · exact isControl_space
  · exact h

/-- Of each unit at most one is left, and blanks are left as plain ones. -/
theorem collapseBlanks_sublist (t : Text) : (collapseBlanks t).Sublist (t.map plainOf) := by
  fun_induction collapseBlanks t with
  | case1 => exact List.Sublist.refl []
  | case2 v => exact List.Sublist.refl [plainOf v]
  | case3 v w rest hv hw ih => exact ih.cons (plainOf v)
  | case4 v w rest hv hw ih =>
    rw [List.map_cons, plainOf_of_isBlank hv]
    exact ih.cons_cons space
  | case5 v w rest hv ih =>
    rw [List.map_cons, plainOf_of_not_isBlank hv]
    exact ih.cons_cons v

theorem mem_collapseBlanks (h : u ∈ collapseBlanks t) : ∃ v ∈ t, plainOf v = u :=
  List.mem_map.1 ((collapseBlanks_sublist t).mem h)

theorem head?_collapseBlanks (t : Text) : (collapseBlanks t).head? = t.head?.map plainOf := by
  fun_induction collapseBlanks t with
  | case1 => rfl
  | case2 v => rfl
  | case3 v w rest hv hw ih => simp [ih, plainOf, hv, hw]
  | case4 v w rest hv hw ih => simp [plainOf, hv]
  | case5 v w rest hv ih => simp [plainOf, hv]

theorem getLast?_cons_collapseBlanks (u v : UInt16) (rest : Text) :
    (u :: collapseBlanks (v :: rest)).getLast? = (collapseBlanks (v :: rest)).getLast? := by
  have hhead := head?_collapseBlanks (v :: rest)
  obtain ⟨more, hmore⟩ := List.head?_eq_some_iff.1 hhead
  rw [hmore, List.getLast?_cons_cons]

theorem getLast?_collapseBlanks (t : Text) :
    (collapseBlanks t).getLast? = t.getLast?.map plainOf := by
  fun_induction collapseBlanks t with
  | case1 => rfl
  | case2 v => rfl
  | case3 v w rest hv hw ih => rw [ih, List.getLast?_cons_cons]
  | case4 v w rest hv hw ih =>
    rw [getLast?_cons_collapseBlanks, ih, List.getLast?_cons_cons]
  | case5 v w rest hv ih =>
    rw [getLast?_cons_collapseBlanks, ih, List.getLast?_cons_cons]

/-- Two units of which one at most is a plain blank. -/
def Apart (u v : UInt16) : Prop := ¬ (u = space ∧ v = space)

theorem not_infix_of_isChain (h : t.IsChain Apart) : ¬ [space, space] <:+: t := by
  intro hspaces
  have hpair := List.IsChain.infix h hspaces
  rw [List.isChain_cons_cons] at hpair
  exact hpair.1 ⟨rfl, rfl⟩

theorem isChain_collapseBlanks (t : Text) : (collapseBlanks t).IsChain Apart := by
  fun_induction collapseBlanks t with
  | case1 => exact .nil
  | case2 v => exact .singleton _
  | case3 v w rest hv hw ih => exact ih
  | case4 v w rest hv hw ih =>
    refine List.isChain_cons.2 ⟨fun x hx hspaces => ?_, ih⟩
    -- The next unit that stays is the one in hand, and that is no blank.
    rw [head?_collapseBlanks] at hx
    obtain rfl : w = x := by simpa [plainOf, hw] using hx
    rw [hspaces.2, isBlank_space] at hw
    exact hw rfl
  | case5 v w rest hv ih =>
    refine List.isChain_cons.2 ⟨fun x hx hspaces => ?_, ih⟩
    rw [hspaces.1, isBlank_space] at hv
    exact hv rfl

/-! ## Cleaning clean text -/

theorem isClean_clean (t : Text) : IsClean (clean t) where
  plain := fun u hu hblank => by
    obtain ⟨v, -, rfl⟩ := mem_collapseBlanks (List.mem_of_mem_take hu)
    rw [isBlank_plainOf] at hblank
    exact plainOf_of_isBlank hblank
  apart := not_infix_of_isChain ((isChain_collapseBlanks _).take _)
  short := by
    unfold clean
    rw [List.length_take]
    exact Nat.min_le_left _ _
  controls := fun u hu => by
    obtain ⟨v, hv, rfl⟩ := mem_collapseBlanks (List.mem_of_mem_take hu)
    have hstays : isControl v = false := by simpa using (List.mem_filter.1 hv).2
    rw [← isControl_iff, isControl_plainOf hstays]
    exact Bool.false_ne_true

theorem trim_isInfix (t : Text) : trim t <:+: t := by
  rw [trim_eq_rdropWhile]
  exact (List.rdropWhile_prefix _ _).isInfix.trans (List.dropWhile_suffix _).isInfix

theorem trim_eq_self_iff : trim t = t ↔ IsTrimmed t :=
  ⟨fun h => h ▸ isTrimmed_trim t, trim_eq_self⟩

/-- Of a clean text cleaning takes away the blanks at the ends and nothing else. -/
theorem clean_eq_trim (h : IsClean t) : clean t = trim t := by
  have htrim := h.of_isInfix (trim_isInfix t)
  have hkept : ((trim t).filter fun u => !isControl u) = trim t := by
    rw [List.filter_eq_self]
    intro u hu
    simp [htrim.isControl_eq_false hu]
  unfold clean
  rw [hkept, collapseBlanks_of_isSpaced htrim.toIsSpaced]
  exact List.take_of_length_le htrim.short

theorem not_isBlank_iff_ne_space {o : Option UInt16}
    (hplain : ∀ u ∈ o, isBlank u = true → u = space) :
    (∀ u ∈ o, isBlank u = false) ↔ o ≠ some space := by
  constructor
  · rintro h rfl
    have hblank := h space rfl
    rw [isBlank_space] at hblank
    cases hblank
  · rintro h u rfl
    refine Bool.eq_false_iff.2 fun hblank => h ?_
    rw [hplain u rfl hblank]

theorem IsClean.isTrimmed_iff (h : IsClean t) :
    IsTrimmed t ↔ t.head? ≠ some space ∧ t.getLast? ≠ some space := by
  rw [← not_isBlank_iff_ne_space fun u hu => h.plain u (List.mem_of_mem_head? hu),
    ← not_isBlank_iff_ne_space fun u hu => h.plain u (List.mem_of_mem_getLast? hu)]
  exact ⟨fun ht => ⟨ht.head, ht.last⟩, fun ⟨hhead, hlast⟩ => ⟨hhead, hlast⟩⟩

/-- Cleaning gives clean text, and it leaves a text as it is exactly when the text is clean and
neither begins nor ends with a plain blank. -/
theorem isClean_clean_and_fixed_iff (t : Text) :
    IsClean (clean t) ∧
      (clean t = t ↔ IsClean t ∧ t.head? ≠ some space ∧ t.getLast? ≠ some space) := by
  refine ⟨isClean_clean t, fun h => ?_, fun ⟨h, hends⟩ => ?_⟩
  · have hclean : IsClean t := h ▸ isClean_clean t
    rw [clean_eq_trim hclean, trim_eq_self_iff] at h
    exact ⟨hclean, hclean.isTrimmed_iff.1 h⟩
  · rw [clean_eq_trim h, trim_eq_self_iff]
    exact h.isTrimmed_iff.2 hends

/-! ## Cleaning once more -/

/-- The trimmed text without its control units. -/
def kept (t : Text) : Text := (trim t).filter fun u => !isControl u

theorem clean_eq_take (t : Text) : clean t = (collapseBlanks (kept t)).take cleanLimit := rfl

/-- How a blank comes to stand at an end of a cleaned text: only control units stand between it and
the front or the back of the trimmed text, or the cut falls behind it. -/
inductive ExposesBlank (t : Text) : Prop
  | front (controls rest : Text) (u : UInt16) (split : trim t = controls ++ u :: rest)
      (gone : ∀ c ∈ controls, isControl c = true) (stays : isControl u = false)
      (blank : isBlank u = true)
  | back (rest controls : Text) (u : UInt16) (split : trim t = rest ++ u :: controls)
      (gone : ∀ c ∈ controls, isControl c = true) (stays : isControl u = false)
      (blank : isBlank u = true) (uncut : (collapseBlanks (kept t)).length ≤ cleanLimit)
  | cut (long : cleanLimit < (collapseBlanks (kept t)).length)
      (last : (collapseBlanks (kept t))[cleanLimit - 1]? = some space)

theorem head?_kept_eq_some_iff : (kept t).head? = some u ↔
    isControl u = false ∧ ∃ controls rest, trim t = controls ++ u :: rest ∧
      ∀ c ∈ controls, isControl c = true := by
  simp [kept, List.head?_filter, List.find?_eq_some_iff_append]

theorem getLast?_kept_eq_some_iff : (kept t).getLast? = some u ↔
    isControl u = false ∧ ∃ rest controls, trim t = rest ++ u :: controls ∧
      ∀ c ∈ controls, isControl c = true := by
  simp only [kept, List.getLast?_filter, List.find?_eq_some_iff_append, Bool.not_eq_true',
    Bool.not_not]
  refine and_congr_right fun _ => ⟨?_, ?_⟩
  · rintro ⟨controls, rest, hsplit, hgone⟩
    refine ⟨rest.reverse, controls.reverse, ?_, fun c hc => hgone c (List.mem_reverse.1 hc)⟩
    rw [← List.reverse_reverse (trim t), hsplit]
    simp
  · rintro ⟨rest, controls, hsplit, hgone⟩
    refine ⟨controls.reverse, rest.reverse, ?_, fun c hc => hgone c (List.mem_reverse.1 hc)⟩
    rw [hsplit]
    simp

theorem head?_clean (t : Text) : (clean t).head? = (kept t).head?.map plainOf := by
  rw [clean_eq_take, List.head?_take, if_neg (by decide), head?_collapseBlanks]

theorem getLast?_clean_of_le (h : (collapseBlanks (kept t)).length ≤ cleanLimit) :
    (clean t).getLast? = (kept t).getLast?.map plainOf := by
  rw [clean_eq_take, List.take_of_length_le h, getLast?_collapseBlanks]

theorem getLast?_clean_of_lt (h : cleanLimit < (collapseBlanks (kept t)).length) :
    (clean t).getLast? = (collapseBlanks (kept t))[cleanLimit - 1]? := by
  rw [clean_eq_take, List.getLast?_take, if_neg (by decide)]
  rw [List.getElem?_eq_getElem (by omega), Option.some_or]

theorem isBlank_of_map_plainOf {o : Option UInt16} (h : o.map plainOf = some space) :
    ∃ u, o = some u ∧ isBlank u = true := by
  obtain ⟨u, rfl, hu⟩ := Option.map_eq_some_iff.1 h
  refine ⟨u, rfl, ?_⟩
  rw [← isBlank_plainOf, hu, isBlank_space]

/-- A cleaned text begins with a blank when control units alone stand in front of one. -/
theorem head?_clean_eq_space_iff : (clean t).head? = some space ↔
    ∃ controls rest u, trim t = controls ++ u :: rest ∧ (∀ c ∈ controls, isControl c = true) ∧
      isControl u = false ∧ isBlank u = true := by
  rw [head?_clean]
  constructor
  · intro h
    obtain ⟨u, hu, hblank⟩ := isBlank_of_map_plainOf h
    obtain ⟨hstays, controls, rest, hsplit, hgone⟩ := head?_kept_eq_some_iff.1 hu
    exact ⟨controls, rest, u, hsplit, hgone, hstays, hblank⟩
  · rintro ⟨controls, rest, u, hsplit, hgone, hstays, hblank⟩
    rw [head?_kept_eq_some_iff.2 ⟨hstays, controls, rest, hsplit, hgone⟩, Option.map_some,
      plainOf_of_isBlank hblank]

theorem exposesBlank_iff : ExposesBlank t ↔
    (clean t).head? = some space ∨ (clean t).getLast? = some space := by
  constructor
  · rintro (⟨controls, rest, u, hsplit, hgone, hstays, hblank⟩ |
      ⟨rest, controls, u, hsplit, hgone, hstays, hblank, huncut⟩ | ⟨hlong, hlast⟩)
    · exact .inl (head?_clean_eq_space_iff.2
        ⟨controls, rest, u, hsplit, hgone, hstays, hblank⟩)
    · right
      rw [getLast?_clean_of_le huncut,
        getLast?_kept_eq_some_iff.2 ⟨hstays, rest, controls, hsplit, hgone⟩, Option.map_some,
        plainOf_of_isBlank hblank]
    · right
      rw [getLast?_clean_of_lt hlong, hlast]
  · rintro (h | h)
    · obtain ⟨controls, rest, u, hsplit, hgone, hstays, hblank⟩ := head?_clean_eq_space_iff.1 h
      exact .front controls rest u hsplit hgone hstays hblank
    · by_cases hcut : cleanLimit < (collapseBlanks (kept t)).length
      · rw [getLast?_clean_of_lt hcut] at h
        exact .cut hcut h
      · have huncut := Nat.not_lt.1 hcut
        rw [getLast?_clean_of_le huncut] at h
        obtain ⟨u, hu, hblank⟩ := isBlank_of_map_plainOf h
        obtain ⟨hstays, rest, controls, hsplit, hgone⟩ := getLast?_kept_eq_some_iff.1 hu
        exact .back rest controls u hsplit hgone hstays hblank huncut

/-- Cleaning a cleaned text trims it and does nothing else, so cleaning twice is enough.  Once is
enough, and the cleaned text has no blank at either end, unless cleaning exposes a blank. -/
theorem clean_clean (t : Text) :
    clean (clean t) = trim (clean t) ∧ clean (clean (clean t)) = clean (clean t) ∧
      (clean (clean t) = clean t ↔ IsTrimmed (clean t)) ∧
      (IsTrimmed (clean t) ↔ ¬ ExposesBlank t) := by
  have htwice := clean_eq_trim (isClean_clean t)
  refine ⟨htwice, ?_, ?_, ?_⟩
  · rw [clean_eq_trim (isClean_clean (clean t)), htwice]
    exact trim_eq_self (isTrimmed_trim _)
  · rw [htwice, trim_eq_self_iff]
  · rw [(isClean_clean t).isTrimmed_iff, exposesBlank_iff, not_or]

/-- A blank behind a control unit comes to stand at the front. -/
example : clean [0x01, space, unit 'a'] = [space, unit 'a'] ∧
    clean (clean [0x01, space, unit 'a']) = [unit 'a'] := by
  decide +kernel

end Text

end BulkTransfer
