import BulkTransfer.Proofs.Dispatch.Basic

/-!
# Capturing failures

Whatever a task throws is kept as a record of its kind and a message.  Some values cannot be turned
into a text: an object that has no conversion or one that throws, a record that replaces its own,
and a list with such an item, however deep (`Datum.shown?_eq_none_iff`).  Others have the empty
text.  Both have a message all the same (`captured_failureDetail`), so no failed result of a batch
is without one.
-/

namespace BulkTransfer

theorem Text.orElse_ne_nil {t fallback : Text} (h : fallback ≠ []) : orElse t fallback ≠ [] := by
  unfold orElse
  split
  · exact h
  · next hne => exact mt List.isEmpty_iff.2 hne

/-! ## Plain data without a text -/

namespace Datum

/-- A datum that cannot be turned into a text: a record that replaces its conversion, or a list with
an item that cannot be turned into one. -/
inductive Unshowable : Datum → Prop
  | record {fields : List (Text × Datum)} (h : (fields.lookup conversionField).isSome = true) :
    Unshowable (.record fields)
  | list {items : List Datum} {item : Datum} (hitem : item ∈ items) (h : Unshowable item) :
    Unshowable (.list items)

/-- A datum with the empty text: that text, and a list of at most one item, which is null or has the
empty text. -/
inductive Blank : Datum → Prop
  | text : Blank (.text [])
  | nil : Blank (.list [])
  | null : Blank (.list [.null])
  | item {d : Datum} (h : Blank d) : Blank (.list [d])

theorem unshowable_record_iff {fields : List (Text × Datum)} :
    Unshowable (.record fields) ↔ (fields.lookup conversionField).isSome = true :=
  ⟨fun | .record h => h, .record⟩

theorem unshowable_list_iff {items : List Datum} :
    Unshowable (.list items) ↔ ∃ item ∈ items, item.Unshowable :=
  ⟨fun | .list hitem h => ⟨_, hitem, h⟩, fun ⟨_, hitem, h⟩ => .list hitem h⟩

theorem Unshowable.ne_null {d : Datum} (h : d.Unshowable) : d ≠ .null := by
  cases h
  all_goals exact nofun

theorem shownItems?_cons {item : Datum} (h : item ≠ .null) (rest : List Datum) :
    shownItems? (item :: rest) =
      (item.shown?).bind fun t => (shownItems? rest).map fun ts => t :: ts := by
  cases hitem : item.shown? with
  | none =>
    cases item with
    | null => exact absurd rfl h
    | _ => simp only [shownItems?, hitem, Option.bind_none]
  | some t =>
    cases item with
    | null => exact absurd rfl h
    | _ =>
      simp only [shownItems?, hitem, Option.bind_some]
      cases shownItems? rest <;> rfl

/-- That null counts as empty among the items of a list makes no difference: it has a text of its
own as well. -/
theorem shownItems?_cons_eq_none_iff (item : Datum) (rest : List Datum) :
    shownItems? (item :: rest) = none ↔ item.shown? = none ∨ shownItems? rest = none := by
  by_cases h : item = .null
  · subst h
    simp [shownItems?, shown?]
  · rw [shownItems?_cons h]
    cases item.shown? <;> simp

mutual

theorem shown?_eq_none_iff : ∀ d : Datum, d.shown? = none ↔ d.Unshowable
  | .null | .bool _ | .number _ | .text _ => by
    simp only [shown?, reduceCtorEq, false_iff]
    exact nofun
  | .list items => by
    rw [shown?, Option.map_eq_none_iff, shownItems?_eq_none_iff items, unshowable_list_iff]
  | .record fields => by
    rw [shown?, unshowable_record_iff]
    split
    · next h => simp [h]
    · next h => simp [h]

theorem shownItems?_eq_none_iff :
    ∀ items : List Datum, shownItems? items = none ↔ ∃ item ∈ items, item.Unshowable
  | [] => by simp [shownItems?]
  | item :: rest => by
    rw [shownItems?_cons_eq_none_iff, shown?_eq_none_iff item, shownItems?_eq_none_iff rest]
    simp only [List.mem_cons, exists_eq_or_imp]

end

theorem Blank.ne_null {d : Datum} (h : d.Blank) : d ≠ .null := by
  cases h
  all_goals exact nofun

theorem Blank.shown?_eq {d : Datum} (h : d.Blank) : d.shown? = some [] := by
  induction h with
  | text | nil | null => rfl
  | item h ih =>
    rw [shown?, shownItems?_cons h.ne_null, ih]
    rfl

end Datum

/-! ## The record of a failure -/

namespace Thrown

/-- What an error says about itself. -/
def facts? : Thrown → Option Facts
  | .wrapper _ facts _ => some facts
  | .plain _ facts => some facts
  | _ => none

/-- A thrown value that cannot be turned into a text. -/
inductive Unshowable : Thrown → Prop
  | datum {d : Datum} (h : d.Unshowable) : Unshowable (.datum d)
  | object {fields : Fields} : Unshowable (.object fields none)

/-- A thrown value that is no error and says nothing. -/
inductive Blank : Thrown → Prop
  | undefined : Blank .undefined
  | null : Blank (.datum .null)
  | datum {d : Datum} (h : d.Blank) : Blank (.datum d)
  | object {fields : Fields} : Blank (.object fields (some []))

/-- What the record of a failure says about the thrown value: the name and the message of an error,
with a remark in place of an empty message; and for any other value a common kind, and a message
even if it has no text or the empty one. -/
structure Captured (e : Thrown) (detail : FailureDetail) : Prop where
  message_ne_nil : detail.message ≠ []
  error : ∀ facts, e.facts? = some facts →
    detail.kind = facts.name ∧
      detail.message =
        if facts.message = [] then facts.name ++ " with no message" else facts.message
  other : e.facts? = none → detail.kind = "UnknownError"
  unshowable : e.Unshowable → detail.message = "Unserializable error"
  blank : e.Blank → detail.message = "Unknown error occurred"

theorem displayFacts_ne_nil (facts : Facts) : displayFacts facts ≠ [] :=
  Text.orElse_ne_nil (List.append_ne_nil_of_right_ne_nil _ (by decide +kernel))

theorem displayShown_ne_nil (shown : Option Text) : displayShown shown ≠ [] := by
  cases shown with
  | none => decide +kernel
  | some t => exact Text.orElse_ne_nil (by decide +kernel)

theorem display_datum {d : Datum} (h : d ≠ .null) :
    (Thrown.datum d).display = displayShown d.shown? := by
  cases d with
  | null => exact absurd rfl h
  | _ => rfl

theorem display_ne_nil (e : Thrown) : e.display ≠ [] := by
  cases e with
  | wrapper kind facts cause => exact displayFacts_ne_nil facts
  | plain kind facts => exact displayFacts_ne_nil facts
  | datum d =>
    by_cases h : d = .null
    · subst h
      decide +kernel
    · rw [display_datum h]
      exact displayShown_ne_nil d.shown?
  | object fields shown => exact displayShown_ne_nil shown
  | undefined => decide +kernel

theorem display_of_facts? {e : Thrown} {facts : Facts} (h : e.facts? = some facts) :
    e.display = if facts.message = [] then facts.name ++ " with no message" else facts.message := by
  have hdisplay : e.display = displayFacts facts := by
    cases e with
    | wrapper | plain =>
      cases h
      rfl
    | _ => cases h
  rw [hdisplay, displayFacts, Text.orElse]
  simp only [List.isEmpty_iff]

theorem kind_of_facts? {e : Thrown} {facts : Facts} (h : e.facts? = some facts) :
    e.kind = facts.name := by
  cases e with
  | wrapper | plain =>
    cases h
    rfl
  | _ => cases h

theorem Unshowable.display_eq {e : Thrown} (h : e.Unshowable) :
    e.display = "Unserializable error" := by
  cases h with
  | datum h =>
    rw [display_datum h.ne_null, (Datum.shown?_eq_none_iff _).2 h]
    rfl
  | object => rfl

theorem Blank.display_eq {e : Thrown} (h : e.Blank) : e.display = "Unknown error occurred" := by
  cases h with
  | undefined | null | object => rfl
  | datum h =>
    rw [display_datum h.ne_null, h.shown?_eq]
    rfl

theorem captured_failureDetail (e : Thrown) : Captured e e.failureDetail where
  message_ne_nil := display_ne_nil e
  error := fun _ h => ⟨kind_of_facts? h, display_of_facts? h⟩
  other := fun h => by
    cases e with
    | wrapper | plain => cases h
    | _ => rfl
  unshowable := Unshowable.display_eq
  blank := Blank.display_eq

example : (datum (.list [.text "a", .list [.record [("toString", .null)]]])).failureDetail =
    ⟨"UnknownError", "Unserializable error", false⟩ := by decide +kernel

end Thrown

/-! ## The failures of a batch -/

theorem TransferResult.exists_detail_ofOutcome (task : Task) {outcome : Except Thrown Unit}
    {duration : Time} (h : (ofOutcome task outcome duration).succeeded = false) :
    ∃ e : Thrown, (ofOutcome task outcome duration).detail = some e.failureDetail := by
  cases outcome with
  | ok => cases h
  | error e => exact ⟨e, rfl⟩

/-- What a failed job keeps of its failure is the record of a thrown value. -/
theorem Job.Yields.exists_detail {σ : Type} {job : Job σ} {r : TransferResult} (h : job.Yields r)
    (hfailed : r.succeeded = false) : ∃ e : Thrown, r.detail = some e.failureDetail := by
  cases h with
  | throws => exact ⟨_, rfl⟩
  | refused => exact ⟨_, rfl⟩
  | waits => exact TransferResult.exists_detail_ofOutcome _ hfailed

namespace Dispatch

variable {σ τ : Type} {clock : Clock} {jobs : List (Job σ)} {concurrency : Number}
  {observer : Observer τ} {world : σ} {results : List TransferResult} {r : TransferResult}

theorem exists_captured_of_run
    (h : (run clock jobs concurrency observer world).outcome = .ok results) (hr : r ∈ results)
    (hfailed : r.succeeded = false) :
    ∃ (e : Thrown) (detail : FailureDetail), r.detail = some detail ∧ e.Captured detail := by
  obtain ⟨job, -, hyields⟩ := exists_yields_of_run h hr
  obtain ⟨e, hdetail⟩ := hyields.exists_detail hfailed
  exact ⟨e, _, hdetail, e.captured_failureDetail⟩

end Dispatch

/-- Every thrown value is kept as a record with its kind and a message that is not empty, and every
failed result of every batch that resolves has such a record of a thrown value. -/
theorem Thrown.capture_is_total :
    (∀ e : Thrown, e.Captured e.failureDetail) ∧
      ∀ {σ τ : Type} (clock : Clock) (jobs : List (Job σ)) (concurrency : Number)
        (observer : Observer τ) (world : σ) (results : List TransferResult),
        (Dispatch.run clock jobs concurrency observer world).outcome = .ok results →
          ∀ r ∈ results, r.succeeded = false →
            ∃ (e : Thrown) (detail : FailureDetail), r.detail = some detail ∧ e.Captured detail :=
  ⟨Thrown.captured_failureDetail, fun _ _ _ _ _ _ h _ hr hfailed =>
    Dispatch.exists_captured_of_run h hr hfailed⟩

end BulkTransfer
