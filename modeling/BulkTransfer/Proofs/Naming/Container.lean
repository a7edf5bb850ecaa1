import BulkTransfer.Naming.Container
import BulkTransfer.Proofs.Naming.Normal
import BulkTransfer.Proofs.Text.Classes
import BulkTransfer.Proofs.Text.Search
import BulkTransfer.Proofs.Text.Split

/-!
# Proper container names

`IsProper` says what a container name looks like, without a word on how it is checked.  Cleaning
leaves such a name as it is (`clean_of_isProper`), and a name that cleaning changes is refused, so
the check accepts the proper names and no others (`accepted_iff_isProper`).
-/

namespace BulkTransfer

namespace ContainerName

open Text

/-! ## What a proper name looks like -/

/-- The units that a name may begin and end with. -/
def lettersAndDigits : Text := smallLetters ++ digits

def period : UInt16 := unit '.'

def hyphen : UInt16 := unit '-'

/-- One to three digits. -/
structure IsGroup (group : Text) : Prop where
  nonempty : 1 ≤ group.length
  short : group.length ≤ 3
  digits : ∀ u ∈ group, u ∈ digits

/-- A name in the form of an address: four groups of digits with periods between them. -/
def IsDottedQuad (name : Text) : Prop :=
  ∃ a b c d, name = a ++ [period] ++ b ++ [period] ++ c ++ [period] ++ d ∧
    IsGroup a ∧ IsGroup b ∧ IsGroup c ∧ IsGroup d

/-- The names that buckets can have. -/
structure IsProper (name : Text) : Prop where
  long : 3 ≤ name.length
  short : name.length ≤ 63
  units : ∀ u ∈ name, u ∈ lettersAndDigits ∨ u = period ∨ u = hyphen
  begins : ∃ u rest, name = u :: rest ∧ u ∈ lettersAndDigits
  ends : ∃ rest u, name = rest ++ [u] ∧ u ∈ lettersAndDigits
  apart : ¬ [period, period] <:+: name
  notAddress : ¬ IsDottedQuad name
  notStart : ¬ reservedStart <+: name
  notEnd : ¬ reservedEnd <:+ name

variable {name : Text} {u : UInt16}

/-! ## The checks, one by one -/

theorem isAlphanumeric_iff : isAlphanumeric u = true ↔ u ∈ lettersAndDigits := by
  unfold isAlphanumeric lettersAndDigits
  rw [Bool.or_eq_true, isLower_iff_mem, isDigit_iff_mem, List.mem_append]

theorem isAllowed_iff : isAllowed u = true ↔ u ∈ lettersAndDigits ∨ u = period ∨ u = hyphen := by
  unfold isAllowed
  rw [Bool.or_eq_true, Bool.or_eq_true, isAlphanumeric_iff, beq_iff_eq, beq_iff_eq, or_assoc]
  rfl

/-- What a container name may hold, a key prefix may hold too. -/
theorem isAllowed_keyPrefix (h : isAllowed u = true) : KeyPrefix.isAllowed u = true := by
  unfold isAllowed isAlphanumeric at h
  unfold KeyPrefix.isAllowed
  simp only [Bool.or_eq_true, beq_iff_eq] at h ⊢
  rcases h with ((hlower | hdigit) | rfl) | rfl
  · exact .inl (.inl (.inl hlower))
  · exact .inl (.inr hdigit)
  · exact .inr (by decide +kernel)
  · exact .inr (by decide +kernel)

theorem hasGoodEnds_iff : hasGoodEnds name = true ↔
    (∃ u rest, name = u :: rest ∧ u ∈ lettersAndDigits) ∧
      ∃ rest u, name = rest ++ [u] ∧ u ∈ lettersAndDigits := by
  unfold hasGoodEnds
  rw [Bool.and_eq_true, Option.any_eq_true, Option.any_eq_true]
  simp only [isAlphanumeric_iff, List.head?_eq_some_iff, List.getLast?_eq_some_iff]
  grind

theorem hasPart_periods : hasPart ".." name = true ↔ [period, period] <:+: name :=
  hasPart_iff _ name

theorem isOctet_iff {group : Text} : isOctet group = true ↔ IsGroup group := by
  unfold isOctet
  simp only [Bool.and_eq_true, decide_eq_true_eq, List.all_eq_true, isDigit_iff_mem, and_assoc]
  exact ⟨fun ⟨hne, hshort, hall⟩ => ⟨hne, hshort, hall⟩,
    fun h => ⟨h.nonempty, h.short, h.digits⟩⟩

theorem IsGroup.not_mem_period {group : Text} (h : IsGroup group) : period ∉ group := by
  intro hmem
  have hdigits : period ∉ Text.digits := by decide +kernel
  exact hdigits (h.digits period hmem)

theorem joinWith_groups (a b c d : Text) :
    joinWith [period] [a, b, c, d] = a ++ [period] ++ b ++ [period] ++ c ++ [period] ++ d := by
  simp [joinWith]

/-- The groups of an address are what its periods split it into. -/
theorem isAddress_iff : isAddress name = true ↔ IsDottedQuad name := by
  have hgroups : isAddress name = true ↔
      (split period name).length = 4 ∧ ∀ group ∈ split period name, IsGroup group := by
    simp only [isAddress, period, Bool.and_eq_true, beq_iff_eq, List.all_eq_true, isOctet_iff]
  rw [hgroups]
  constructor
  · rintro ⟨hlength, hall⟩
    obtain ⟨a, b, c, d, hsplit⟩ := List.length_eq_four.1 hlength
    have hjoin := joinWith_split period name
    rw [hsplit, joinWith_groups] at hjoin
    rw [hsplit] at hall
    exact ⟨a, b, c, d, hjoin.symm, hall a (by simp), hall b (by simp), hall c (by simp),
      hall d (by simp)⟩
  · rintro ⟨a, b, c, d, rfl, ha, hb, hc, hd⟩
    have hall : ∀ group ∈ [a, b, c, d], IsGroup group := by simp [ha, hb, hc, hd]
    have hsplit := split_joinWith (List.cons_ne_nil a [b, c, d])
      fun group hgroup => (hall group hgroup).not_mem_period
    rw [← joinWith_groups, hsplit]
    exact ⟨rfl, hall⟩

/-! ## Cleaning a name -/

theorem clean_of_isAllowed (hunits : ∀ u ∈ name, isAllowed u = true)
    (hlength : name.length ≤ cleanLimit) : clean name = name := by
  have hblank : ∀ u ∈ name, isBlank u = false := fun u hu =>
    KeyPrefix.isBlank_of_isAllowed (isAllowed_keyPrefix (hunits u hu))
  have hcontrol : ∀ u ∈ name, isControl u = false := fun u hu =>
    KeyPrefix.isControl_of_isAllowed (isAllowed_keyPrefix (hunits u hu))
  have htrimmed : IsTrimmed name :=
    ⟨fun u hu => hblank u (List.mem_of_mem_head? hu),
      fun u hu => hblank u (List.mem_of_mem_getLast? hu)⟩
  have hfilter : (name.filter fun u => !isControl u) = name := by
    rw [List.filter_eq_self]
    intro u hu
    rw [hcontrol u hu]
    rfl
  unfold clean
  rw [trim_eq_self htrimmed, hfilter, collapseBlanks_eq_self hblank]
  exact List.take_of_length_le hlength

theorem clean_of_isProper (h : IsProper name) : clean name = name := by
  apply clean_of_isAllowed
  · intro u hu
    exact isAllowed_iff.2 (h.units u hu)
  · exact h.short.trans (by decide)

/-! ## Accepted names -/

theorem rule_eq_none_iff {broken : Prop} [Decidable broken] {fault : ContainerFault}
    {rest : Option ContainerFault} :
    (if broken then some fault else rest) = none ↔ ¬ broken ∧ rest = none := by
  split <;> simp [*]

/-- A name passes all checks exactly when cleaning leaves it as it is and it is proper. -/
theorem fault?_eq_none_iff_and : fault? name = none ↔ clean name = name ∧ IsProper name := by
  simp only [fault?, rule_eq_none_iff, Bool.or_eq_true, decide_eq_true_eq, not_or, Nat.not_lt,
    Bool.not_eq_true', Bool.not_eq_false, List.all_eq_true, isAllowed_iff, hasGoodEnds_iff,
    hasPart_periods, isAddress_iff, List.isPrefixOf_iff_prefix, List.isSuffixOf_iff_suffix,
    ne_eq, not_not, and_true]
  constructor
  · rintro ⟨-, hclean, ⟨hlong, hshort⟩, hunits, ⟨hbegins, hends⟩, hapart, haddress, hstart, hend⟩
    exact ⟨hclean, hlong, hshort, hunits, hbegins, hends, hapart, haddress, hstart, hend⟩
  · rintro ⟨hclean, h⟩
    obtain ⟨u, rest, hname, -⟩ := h.begins
    have hnonempty : ¬ (clean name).isEmpty = true := by
      rw [hclean, hname]
      exact Bool.false_ne_true
    exact ⟨hnonempty, hclean, ⟨h.long, h.short⟩, h.units, ⟨h.begins, h.ends⟩, h.apart,
      h.notAddress, h.notStart, h.notEnd⟩

/-- A container name is accepted exactly when it is proper.  Cleaning has no part in this: it leaves
proper names as they are, and a name that would be proper once cleaned is refused for what cleaning
takes away. -/
theorem accepted_iff_isProper (name : Text) :
    (fault? name = none ↔ IsProper name) ∧
      (IsProper name → clean name = name) ∧
      (IsProper (clean name) → clean name ≠ name → fault? name = some .unclean) := by
  refine ⟨?_, clean_of_isProper, fun h hne => ?_⟩
  · rw [fault?_eq_none_iff_and]
    exact ⟨fun h => h.2, fun h => ⟨clean_of_isProper h, h⟩⟩
  · obtain ⟨u, rest, hclean, -⟩ := h.begins
    unfold fault?
    rw [if_neg (by rw [hclean]; exact Bool.false_ne_true), if_pos hne]

end ContainerName

end BulkTransfer
