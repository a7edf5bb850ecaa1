import BulkTransfer.Thrown.Condition
import BulkTransfer.Thrown.Retry
import BulkTransfer.Proofs.Text.Search

/-!
# Conditions that pass and failures worth repeating

A failure is read twice: as a condition of the service, which its message tells, and as worth
repeating or not.  The messages that tell of a condition that passes are those of five conditions
(`message_mem_passingMessages_iff`).  A value that is read as one of them is worth repeating unless
nothing speaks for that but a host that was not found or a fault with the name of an internal one
(`isRetryable_iff_of_passing`): the list of names by which failures are repeated has neither.
-/

namespace BulkTransfer

/-! ## What a message tells -/

/-- The messages that tell of a condition that passes. -/
def passingMessages : List Text :=
  ["Storage request failed: network error", "Storage request timed out",
    "Storage request throttled, please retry", "Storage service temporarily unavailable",
    "Storage internal server error"]

/-- How the messages of all other conditions begin. -/
def lastingOpenings : List Text :=
  ["Container '", "Object '", "Access denied to container '",
    "Insufficient permissions for container '", "Storage quota exceeded",
    "Object size exceeds storage limits", "Invalid container name: '", "Storage operation failed: "]

theorem not_prefix_of_mem_lastingOpenings :
    ∀ start ∈ lastingOpenings, ∀ m ∈ passingMessages, ¬ start <+: m := by
  decide +kernel

namespace Condition

variable (container : Text) (object : Option Text) (reported : Text)

theorem message_mem_passingMessages {c : Condition} (h : c.isTransient = true) :
    c.message container object reported ∈ passingMessages := by
  cases c with
  | network | timedOut | throttled | unavailable | internal => simp [message, passingMessages]
  | _ => cases h

theorem exists_opening_missing :
    ∃ start ∈ lastingOpenings, start <+: missing container object := by
  rw [missing.eq_def]
  split
  · exact ⟨"Object '", by simp [lastingOpenings], by simp [List.append_assoc]⟩
  · exact ⟨"Container '", by simp [lastingOpenings], by simp [List.append_assoc]⟩

theorem exists_opening_message {c : Condition} (h : c.isTransient = false) :
    ∃ start ∈ lastingOpenings, start <+: c.message container object reported := by
  have hopens : ∀ (start t : Text), start ∈ lastingOpenings →
      ∃ opening ∈ lastingOpenings, opening <+: start ++ t :=
    fun start t hstart => ⟨start, hstart, List.prefix_append start t⟩
  cases c with
  | network | timedOut | throttled | unavailable | internal => cases h
  | notFound => exact exists_opening_missing container object
  | quotaExceeded => exact ⟨"Storage quota exceeded", by simp [lastingOpenings], List.prefix_rfl⟩
  | tooLarge =>
    exact ⟨"Object size exceeds storage limits", by simp [lastingOpenings], List.prefix_rfl⟩
  | noSuchContainer | noSuchObject | accessDenied | forbidden | badContainerName | other =>
    simp only [message, List.append_assoc]
    exact hopens _ _ (by simp [lastingOpenings])

/-- A message tells of a condition that passes exactly when it is the message of one. -/
theorem message_mem_passingMessages_iff (c : Condition) :
    c.message container object reported ∈ passingMessages ↔ c.isTransient = true := by
  cases h : c.isTransient with
  | true => exact iff_of_true (message_mem_passingMessages container object reported h) rfl
  | false =>
    obtain ⟨start, hstart, hopens⟩ := exists_opening_message container object reported h
    exact iff_of_false (fun hmem => not_prefix_of_mem_lastingOpenings start hstart _ hmem hopens)
      Bool.false_ne_true

end Condition

/-! ## What speaks for repeating -/

namespace Details

variable {d : Details} {word : Text}

theorem isRetryable_of_mentions (h : d.mentions word = true) (hword : word ∈ transientNames) :
    d.isRetryable = true := by
  rw [isRetryable, Bool.or_eq_true, List.any_eq_true]
  exact .inr ⟨word, hword, h⟩

theorem isRetryable_of_isNamed (h : d.isNamed word = true)
    (hword : word ∈ transientNames := by simp [transientNames]) : d.isRetryable = true := by
  refine isRetryable_of_mentions ?_ hword
  rw [isNamed] at h
  rw [mentions, h, Bool.true_or, Bool.true_or]

theorem isRetryable_of_hasCode (h : d.hasCode word = true)
    (hword : word ∈ transientNames := by simp [transientNames]) : d.isRetryable = true := by
  refine isRetryable_of_mentions ?_ hword
  rw [hasCode] at h
  rw [mentions, h, Bool.or_true, Bool.true_or]

theorem hasStatus_iff {n : Nat} : d.hasStatus n = true ↔ d.status = some (.finite n) := by
  rw [hasStatus, Option.any_eq_true]
  constructor
  · rintro ⟨status, hstatus, hnat⟩
    cases status with
    | nan => cases hnat
    | infinite negative => cases hnat
    | finite q =>
      obtain rfl : q = n := eq_of_beq hnat
      exact hstatus
  · exact fun h => ⟨_, h, beq_self_eq_true _⟩

theorem isRetryable_of_hasStatus {n : Nat} (h : d.hasStatus n = true) (hn : 500 ≤ n ∨ n = 429) :
    d.isRetryable = true := by
  rw [isRetryable, hasStatus_iff.1 h, Bool.or_eq_true]
  refine .inl ?_
  rw [Option.any_some, isTransientStatus, Bool.or_eq_true]
  refine hn.imp (fun hn => ?_) (fun hn => ?_)
  · exact decide_eq_true (Rat.natCast_le_natCast.2 hn)
  · subst hn
    rfl

/-- What is read as a condition that passes for the sake of a host that was not found or of a fault
with the name of an internal one, while neither its status nor the name of a condition that passes
says the same. -/
structure Overlooked (d : Details) : Prop where
  sign : d.code = some (Text.ofString "ENOTFOUND") ∨ d.name = some (Text.ofString "InternalError")
  status : ∀ n, d.status = some n → isTransientStatus n = false
  name : ∀ word ∈ transientNames, d.name ≠ some word
  code : ∀ word ∈ transientNames, d.code ≠ some word
  message : ∀ word ∈ transientNames, ¬ word <:+: d.message

theorem Overlooked.isRetryable_eq_false (h : d.Overlooked) : d.isRetryable = false := by
  rw [isRetryable, Bool.or_eq_false_iff, Option.any_eq_false, List.any_eq_false]
  refine ⟨h.status, fun word hword hmentions => ?_⟩
  rw [mentions, Bool.or_eq_true, Bool.or_eq_true, beq_iff_eq, beq_iff_eq, Text.hasPart_iff]
    at hmentions
  rcases hmentions with (hname | hcode) | hmessage
  · exact h.name word hword hname
  · exact h.code word hword hcode
  · exact h.message word hword hmessage

theorem overlooked_of_isRetryable_eq_false (h : d.isRetryable = false)
    (hsign : d.code = some (Text.ofString "ENOTFOUND") ∨
      d.name = some (Text.ofString "InternalError")) : d.Overlooked := by
  rw [isRetryable, Bool.or_eq_false_iff, Option.any_eq_false, List.any_eq_false] at h
  obtain ⟨hstatus, hwords⟩ := h
  have hwords : ∀ word ∈ transientNames,
      ¬ ((d.name = some word ∨ d.code = some word) ∨ word <:+: d.message) := by
    intro word hword
    have hmentions := hwords word hword
    rwa [mentions, Bool.or_eq_true, Bool.or_eq_true, beq_iff_eq, beq_iff_eq, Text.hasPart_iff]
      at hmentions
  exact
    { sign := hsign
      status := hstatus
      name := fun word hword h => hwords word hword (.inl (.inl h))
      code := fun word hword h => hwords word hword (.inl (.inr h))
      message := fun word hword h => hwords word hword (.inr h) }

end Details

namespace Condition

open Details

/-- The last rules are those of the conditions that pass. -/
theorem filter_isTransient_rules : rules.filter (fun rule => rule.1.isTransient) = rules.drop 8 :=
  rfl

theorem exists_rule_of_isTransient {d : Details} (h : (ofDetails d).isTransient = true) :
    ∃ rule ∈ rules.drop 8, rule.2 d = true := by
  rw [ofDetails] at h
  cases hfind : rules.find? (·.2 d) with
  | none =>
    rw [hfind] at h
    cases h
  | some rule =>
    obtain ⟨condition, applies⟩ := rule
    rw [hfind] at h
    have happlies : applies d = true :=
      List.find?_some (p := fun rule : Condition × (Details → Bool) => rule.2 d) hfind
    rw [← filter_isTransient_rules]
    exact ⟨_, List.mem_filter.2 ⟨List.mem_of_find?_eq_some hfind, h⟩, happlies⟩

/-- What is read as a condition that passes is worth repeating, or it has one of two signs that only
the reading knows. -/
theorem isRetryable_or_sign_of_isTransient {d : Details} (h : (ofDetails d).isTransient = true) :
    d.isRetryable = true ∨ d.code = some (Text.ofString "ENOTFOUND") ∨
      d.name = some (Text.ofString "InternalError") := by
  obtain ⟨rule, hrule, happlies⟩ := exists_rule_of_isTransient h
  simp only [rules, List.drop_succ_cons, List.drop_zero, List.mem_cons, List.not_mem_nil,
    or_false] at hrule
  rcases hrule with rfl | rfl | rfl | rfl | rfl
  all_goals simp only [Bool.or_eq_true, or_assoc] at happlies
  · rcases happlies with h | h | h | h | h | h
    · exact .inl (isRetryable_of_hasCode h)
    · exact .inl (isRetryable_of_isNamed h)
    · exact .inl (isRetryable_of_hasCode h)
    · exact .inl (isRetryable_of_hasCode h)
    · exact .inr (.inl (eq_of_beq h))
    · exact .inl (isRetryable_of_hasCode h)
  · rcases happlies with h | h | h | h
    · exact .inl (isRetryable_of_hasCode h)
    · exact .inl (isRetryable_of_isNamed h)
    · exact .inl (isRetryable_of_isNamed h)
    · exact .inl (isRetryable_of_hasCode h)
  · rcases happlies with h | h | h | h
    · exact .inl (isRetryable_of_isNamed h)
    · exact .inl (isRetryable_of_isNamed h)
    · exact .inl (isRetryable_of_isNamed h)
    · exact .inl (isRetryable_of_hasStatus h (.inr rfl))
  · rcases happlies with h | h
    · exact .inl (isRetryable_of_isNamed h)
    · exact .inl (isRetryable_of_hasStatus h (.inl (by decide)))
  · rcases happlies with h | h
    · exact .inr (.inr (eq_of_beq h))
    · exact .inl (isRetryable_of_hasStatus h (.inl (by decide)))

end Condition

/-! ## Both readings of a thrown value -/

namespace Thrown

/-- Whether a thrown value stands for another one. -/
def isWrapper : Thrown → Bool
  | .wrapper _ _ _ => true
  | _ => false

/-- A value that stands for itself is judged by its own details. -/
theorem isRetryable_eq_details {e : Thrown} (h : e.isWrapper = false) :
    e.isRetryable = e.details.isRetryable := by
  cases e with
  | wrapper kind facts cause => cases h
  | _ => rfl

theorem isStorage_of_not_isWrapper {e : Thrown} (h : e.isWrapper = false) :
    e.isStorage = false := by
  cases e with
  | wrapper kind facts cause => cases h
  | _ => rfl

theorem asStorage_of_not_isStorage {e : Thrown} (h : e.isStorage = false)
    (container object : Option Text) :
    e.asStorage container object = .storage (e.condition.message
      (Text.orElse (container.getD []) "specified container") object e.details.message) e := by
  rw [asStorage, h]
  rfl

/-- A storage error is judged as the value that it is made of. -/
theorem isRetryable_asStorage (e : Thrown) (container object : Option Text) :
    (e.asStorage container object).isRetryable = e.isRetryable := by
  cases h : e.isStorage with
  | true => rw [asStorage, if_pos h]
  | false => rw [asStorage_of_not_isStorage h]; rfl

/-- A value that stands for itself, and whose storage error tells of a condition that passes, is
worth repeating, and its record says so, unless it is overlooked. -/
theorem isRetryable_iff_of_passing (e : Thrown) (container object : Option Text)
    (hself : e.isWrapper = false)
    (hpasses : (e.asStorage container object).message ∈ passingMessages) :
    (e.isRetryable = true ↔ ¬ e.details.Overlooked) ∧
      e.failureDetail.retryable = e.isRetryable ∧
      (e.asStorage container object).failureDetail.retryable = e.isRetryable := by
  refine ⟨?_, rfl, isRetryable_asStorage e container object⟩
  rw [asStorage_of_not_isStorage (isStorage_of_not_isWrapper hself)] at hpasses
  have htransient : e.condition.isTransient = true :=
    (Condition.message_mem_passingMessages_iff _ _ _ _).1 hpasses
  rw [isRetryable_eq_details hself]
  constructor
  · intro hretryable hoverlooked
    rw [hoverlooked.isRetryable_eq_false] at hretryable
    cases hretryable
  · intro hseen
    rcases Condition.isRetryable_or_sign_of_isTransient htransient with hretryable | hsign
    · exact hretryable
    · refine Bool.of_not_eq_false fun hfalse => ?_
      exact hseen (Details.overlooked_of_isRetryable_eq_false hfalse hsign)

/-- Of two failures of the network, a reset connection is worth repeating and a host that was not
found is overlooked. -/
theorem isRetryable_iff_of_passing_network :
    let reset : Thrown := .plain .general ⟨"Error", "read ECONNRESET",
      some (.text "ECONNRESET"), none⟩
    let unknown : Thrown := .plain .general ⟨"Error", "getaddrinfo ENOTFOUND s3.test",
      some (.text "ENOTFOUND"), none⟩
    (reset.isWrapper = false ∧ (reset.asStorage (some "c") none).message ∈ passingMessages ∧
      reset.isRetryable = true) ∧
    unknown.isWrapper = false ∧ (unknown.asStorage (some "c") none).message ∈ passingMessages ∧
      unknown.isRetryable = false := by
  intro reset unknown
  have hreset : (reset.asStorage (some "c") none).message ∈ passingMessages := by decide +kernel
  have hunknown : (unknown.asStorage (some "c") none).message ∈ passingMessages := by
    decide +kernel
  have hseen : ¬ reset.details.Overlooked := fun h =>
    h.code "ECONNRESET" (by simp [transientNames]) rfl
  have hoverlooked : unknown.details.Overlooked :=
    Details.overlooked_of_isRetryable_eq_false (by decide +kernel) (.inl rfl)
  refine ⟨⟨rfl, hreset, (isRetryable_iff_of_passing reset _ _ rfl hreset).1.2 hseen⟩, rfl, hunknown,
    Bool.eq_false_iff.2 fun h => ?_⟩
  exact (isRetryable_iff_of_passing unknown _ _ rfl hunknown).1.1 h hoverlooked

end Thrown

end BulkTransfer
