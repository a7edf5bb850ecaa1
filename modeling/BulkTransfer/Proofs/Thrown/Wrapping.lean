import BulkTransfer.Proofs.Thrown.Passing

/-!
# Wrapped values

A storage or enumeration error stands for the value that caused it, which may be such an error in
turn.  Every thrown value is a chain of wrappers around its innermost cause (`exists_within`), and
whether it is worth repeating is decided by that cause alone (`isRetryable_within`).  So the storage
error made of a value is judged as the value, however often it is made
(`asStorage_keeps_verdict`).
-/

namespace BulkTransfer

namespace Thrown

/-- What a thrown value stands for, if it is a wrapper. -/
def cause? : Thrown → Option Thrown
  | .wrapper _ _ cause => some cause
  | _ => none

/-- The value at the end of a chain of wrappers. -/
def innermost : Thrown → Thrown
  | .wrapper _ _ cause => cause.innermost
  | e => e

/-- A thrown value within wrappers, the outermost one first. -/
def within (layers : List (Wrapper × Facts)) (e : Thrown) : Thrown :=
  layers.foldr (fun layer cause => .wrapper layer.1 layer.2 cause) e

/-! ## Chains -/

theorem isWrapper_innermost (e : Thrown) : e.innermost.isWrapper = false := by
  induction e with
  | wrapper kind facts cause ih => exact ih
  | _ => rfl

theorem exists_within (e : Thrown) : ∃ layers, e = within layers e.innermost := by
  induction e with
  | wrapper kind facts cause ih =>
    obtain ⟨layers, hlayers⟩ := ih
    refine ⟨(kind, facts) :: layers, ?_⟩
    show Thrown.wrapper kind facts cause = .wrapper kind facts (within layers cause.innermost)
    rw [← hlayers]
  | _ => exact ⟨[], rfl⟩

theorem isRetryable_within (layers : List (Wrapper × Facts)) (e : Thrown) :
    (within layers e).isRetryable = e.isRetryable := by
  induction layers with
  | nil => rfl
  | cons layer layers ih => exact ih

theorem isRetryable_innermost (e : Thrown) : e.innermost.isRetryable = e.isRetryable := by
  obtain ⟨layers, hlayers⟩ := exists_within e
  calc e.innermost.isRetryable = (within layers e.innermost).isRetryable :=
        (isRetryable_within layers _).symm
    _ = e.isRetryable := by rw [← hlayers]

/-- Nothing is known of what is undefined, so nothing speaks for repeating it. -/
theorem isRetryable_undefined : Thrown.undefined.isRetryable = false := by decide +kernel

/-! ## Storage errors -/

theorem isStorage_asStorage (e : Thrown) (container object : Option Text) :
    (e.asStorage container object).isStorage = true := by
  cases h : e.isStorage with
  | true => rwa [asStorage, if_pos h]
  | false =>
    rw [asStorage_of_not_isStorage h]
    rfl

/-- The storage error for a thrown value is the value itself exactly when it is a storage error
already, and else has the value as its cause; the storage error for it is the same one, whatever it
was asked for.  It is worth repeating exactly when the value is.  So is any chain of wrappers around
the value, and every thrown value is such a chain around its innermost cause; around nothing at all
it is not worth repeating. -/
theorem asStorage_keeps_verdict (e : Thrown) (container object : Option Text) :
    let error := e.asStorage container object
    error.isStorage = true ∧
      (error = e ↔ e.isStorage = true) ∧
      (e.isStorage = false → error.cause? = some e) ∧
      (∀ container' object', error.asStorage container' object' = error) ∧
      error.isRetryable = e.isRetryable ∧
      (∀ layers, (within layers e).isRetryable = e.isRetryable ∧
        (within layers .undefined).isRetryable = false) ∧
      (∃ layers, e = within layers e.innermost) ∧ e.innermost.isWrapper = false ∧
      e.isRetryable = e.innermost.isRetryable := by
  intro error
  have hstorage : error.isStorage = true := isStorage_asStorage e container object
  refine ⟨hstorage, ⟨fun h => h ▸ hstorage, fun h => if_pos h⟩, fun h => ?_, fun _ _ => ?_,
    isRetryable_asStorage e container object, fun layers => ⟨isRetryable_within layers e, ?_⟩,
    exists_within e, isWrapper_innermost e, (isRetryable_innermost e).symm⟩
  · simp only [error, asStorage_of_not_isStorage h]
    rfl
  · exact if_pos hstorage
  · rw [isRetryable_within, isRetryable_undefined]

end Thrown

end BulkTransfer
