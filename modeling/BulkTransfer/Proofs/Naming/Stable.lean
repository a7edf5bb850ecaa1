import BulkTransfer.Enumeration.Local
import BulkTransfer.Enumeration.Remote
import BulkTransfer.Proofs.Naming.Normal

/-!
# Normal forms that stay as they are

A normal form is empty or ends in a slash.  One slash is taken from the front of a key prefix, after
its blanks, so what stands behind that slash comes first in the normal form, be it another slash or
a blank (`HidesLead`).  Normalizing again takes that away as well; all other normal forms stay as
they are, and with them the keys of both enumerations (`normalize_normalize`).
-/

namespace BulkTransfer

namespace KeyPrefix

open Text

variable {s t : Text} {u : UInt16}

/-! ## Closed texts -/

theorem isClosed_closeSlash (t : Text) : IsClosed (closeSlash t) := by
  by_cases h : IsClosed t
  · rwa [closeSlash_of_isClosed h]
  · right
    rw [closeSlash_of_not_isClosed h, List.getLast?_concat]

theorem IsClosed.of_suffix (h : IsClosed t) (hs : s <:+ t) : IsClosed s := by
  obtain ⟨front, rfl⟩ := hs
  rcases List.eq_nil_or_concat s with rfl | ⟨rest, u, rfl⟩
  · exact .inl rfl
  · right
    rcases h with hnil | hlast
    · simp at hnil
    · simpa using hlast

theorem dropSlash_suffix (t : Text) : dropSlash t <:+ t := by
  cases t with
  | nil => exact List.suffix_rfl
  | cons u rest =>
    rw [dropSlash]
    split
    · exact List.suffix_cons u rest
    · exact List.suffix_rfl

/-- The slash at the end of a closed text stops the trimming there. -/
theorem trim_of_isClosed (h : IsClosed t) : trim t = t.dropWhile isBlank := by
  rw [trim_eq_rdropWhile, List.rdropWhile_eq_self_iff]
  intro hne
  rcases h.of_suffix (List.dropWhile_suffix isBlank) with hnil | hlast
  · exact absurd hnil hne
  · rw [List.getLast?_eq_some_getLast hne, Option.some.injEq] at hlast
    rw [hlast, isBlank_slash]
    exact Bool.false_ne_true

theorem normalize_of_isClosed (h : IsClosed t) :
    normalize (some t) = dropSlash (t.dropWhile isBlank) := by
  rw [normalize, trim_of_isClosed h, closeSlash_of_isClosed]
  exact h.of_suffix ((dropSlash_suffix _).trans (List.dropWhile_suffix _))

/-- A closed text is its own normal form unless it begins with a slash or a blank. -/
theorem normalize_eq_self_iff (h : IsClosed t) :
    normalize (some t) = t ↔ ∀ u ∈ t.head?, u ≠ slash ∧ isBlank u = false := by
  rw [normalize_of_isClosed h]
  cases t with
  | nil => simp [dropSlash]
  | cons v rest =>
    simp only [List.head?_cons, Option.mem_some_iff, forall_eq']
    by_cases hblank : isBlank v = true
    · rw [List.dropWhile_cons_of_pos hblank]
      refine iff_of_false (fun heq => ?_) fun hv => by simp [hblank] at hv
      have hsuffix : dropSlash (rest.dropWhile isBlank) <:+ rest :=
        (dropSlash_suffix _).trans (List.dropWhile_suffix isBlank)
      have hle := hsuffix.length_le
      rw [heq, List.length_cons] at hle
      omega
    · rw [List.dropWhile_cons_of_neg hblank]
      by_cases hslash : v = slash
      · simp [dropSlash, hslash]
      · simp [dropSlash, hslash, hblank]

/-! ## What comes first -/

/-- Behind the slash that is taken from the front of a key prefix stands another slash or a
blank. -/
def HidesLead (t : Text) : Prop :=
  ∃ u rest, trim t = slash :: u :: rest ∧ (u = slash ∨ isBlank u = true)

theorem head?_normalize_eq_some_iff (hu : u = slash ∨ isBlank u = true) :
    (normalize (some t)).head? = some u ↔ ∃ rest, trim t = slash :: u :: rest := by
  rw [normalize, head?_closeSlash]
  have htrimmed := isTrimmed_trim t
  cases htrim : trim t with
  | nil => simp [dropSlash]
  | cons v rest =>
    by_cases hv : v = slash
    · simp [dropSlash, hv, List.head?_eq_some_iff]
    · -- The first unit stays; it is no slash, and no blank as the text is trimmed.
      have hblank : isBlank v = false := htrimmed.head v (by rw [htrim]; rfl)
      rw [dropSlash, if_neg hv]
      apply iff_of_false
      · intro hhead
        obtain rfl : v = u := Option.some.inj hhead
        simp [hv, hblank] at hu
      · rintro ⟨more, heq⟩
        exact hv (List.cons.inj heq).1

theorem head?_normalize_iff : (∀ u ∈ (normalize (some t)).head?, u ≠ slash ∧ isBlank u = false) ↔
    ¬ HidesLead t := by
  constructor
  · rintro h ⟨u, rest, htrim, hu⟩
    obtain ⟨hslash, hblank⟩ := h u ((head?_normalize_eq_some_iff hu).2 ⟨rest, htrim⟩)
    simp [hslash, hblank] at hu
  · intro h u hhead
    by_contra hnot
    have hu : u = slash ∨ isBlank u = true := by
      by_cases hslash : u = slash
      · exact .inl hslash
      · simpa [hslash] using hnot
    obtain ⟨rest, htrim⟩ := (head?_normalize_eq_some_iff hu).1 hhead
    exact h ⟨u, rest, htrim, hu⟩

theorem not_hidesLead_of_accepted (h : fault? t = none) : ¬ HidesLead t := by
  rintro ⟨u, rest, htrim, -⟩
  apply head?_trim_of_accepted h
  rw [htrim]
  rfl

/-! ## Keys -/

theorem ofDirectory_congr {σ : Type} {k l : Option Text} (h : normalize k = normalize l)
    (files : Files) (container directory : Text) (world : σ) :
    Enumeration.ofDirectory files container directory k world =
      Enumeration.ofDirectory files container directory l world := by
  have htask : ∀ absolute, (⟨container, absolute, k⟩ : Enumeration.Source).task? files =
      (⟨container, absolute, l⟩ : Enumeration.Source).task? files := by
    intro absolute
    funext entry
    simp only [Enumeration.Source.task?, Enumeration.Source.task, Enumeration.Source.pathOf,
      objectName, h]
  simp only [Enumeration.ofDirectory, htask]
  rfl

theorem ofContainer_congr {σ : Type} {k l : Option Text} (h : normalize k = normalize l)
    (list : Enumeration.Lister σ) (cwd : Path) (container directory : Text) (world : σ) :
    Enumeration.ofContainer list cwd container directory k world =
      Enumeration.ofContainer list cwd container directory l world := by
  simp only [Enumeration.ofContainer, h]

/-- A normal form is empty or ends in a slash, and begins with what stands behind a leading slash of
the trimmed prefix if that is a slash or a blank.  It is its own normal form exactly when it begins
with neither, and then it gives the keys that the prefix itself gives; accepted prefixes are of this
kind. -/
theorem normalize_normalize (t : Text) :
    let normal := normalize (some t)
    (normal = [] ∨ normal.getLast? = some slash) ∧
      (∀ u, u = slash ∨ isBlank u = true →
        (normal.head? = some u ↔ ∃ rest, trim t = slash :: u :: rest)) ∧
      (normalize (some normal) = normal ↔ ¬ HidesLead t) ∧
      (∀ file, objectName (some normal) file = objectName (some t) file ↔ ¬ HidesLead t) ∧
      (fault? t = none → ¬ HidesLead t) ∧
      (¬ HidesLead t →
        (∀ {σ : Type} (files : Files) (container directory : Text) (world : σ),
          Enumeration.ofDirectory files container directory (some normal) world =
            Enumeration.ofDirectory files container directory (some t) world) ∧
        ∀ {σ : Type} (list : Enumeration.Lister σ) (cwd : Path) (container directory : Text)
          (world : σ),
          Enumeration.ofContainer list cwd container directory (some normal) world =
            Enumeration.ofContainer list cwd container directory (some t) world) := by
  intro normal
  have hclosed : IsClosed normal := isClosed_closeSlash _
  have hstable : normalize (some normal) = normal ↔ ¬ HidesLead t :=
    (normalize_eq_self_iff hclosed).trans head?_normalize_iff
  refine ⟨hclosed, fun u hu => head?_normalize_eq_some_iff hu, hstable, fun file => ?_,
    not_hidesLead_of_accepted, fun hleads => ⟨fun files container directory world => ?_,
      fun list cwd container directory world => ?_⟩⟩
  · unfold objectName
    rw [List.append_left_inj]
    exact hstable
  · exact ofDirectory_congr (hstable.2 hleads) files container directory world
  · exact ofContainer_congr (hstable.2 hleads) list cwd container directory world

/-- A second slash comes first once the first one is gone, and then it goes as well. -/
example : normalize (some "//a") = "/a/" ∧ normalize (some "/a/") = "a/" := by decide +kernel

end KeyPrefix

end BulkTransfer
