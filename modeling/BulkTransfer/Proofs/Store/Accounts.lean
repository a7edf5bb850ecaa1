import BulkTransfer.Proofs.Store.Steps

/-!
# What operations called together leave of the store

At every moment of every schedule the store is the one that was there with the calls logged, the
operations that have not ended in flight, and the objects of the puts that have ended well
(`Accounts`).  All of the operations are in flight at once, and when they have ended none is.
-/

namespace BulkTransfer

namespace Underway

open Site

variable {u v : Underway} {tasks : List Task} {task : Task} {s : Site} {i : Nat}

/-- An operation puts its object and has ended well. -/
def Puts (u : Underway) (task : Task) : Prop :=
  task.direction = .upload ∧ ∃ i, ((i, task), .ok ()) ∈ u.ended

/-- The peak of the operations in flight when so many are called at once. -/
def peakOf (s : Store) (tasks : List Task) : Nat :=
  if tasks = [] then s.peakInFlight else max s.peakInFlight (s.inFlight + tasks.length)

/-- The store beside its containers when so many operations have ended. -/
def counted (tasks : List Task) (s : Store) (ended : Nat) : Store :=
  { s with
    calls := s.calls ++ tasks.map fun task => callOf task.direction task
    inFlight := s.inFlight + (tasks.length - ended)
    peakInFlight := peakOf s tasks }

/-- What the store is at a moment of operations called together. -/
structure Accounts (tasks : List Task) (s : Site) (u : Underway) : Prop where
  store : u.site.store =
    { counted tasks s.store u.ended.length with containers := u.site.store.containers }
  object? : ∀ container name,
    (∀ task, Puts u task → ¬ (container = task.container ∧ name = task.objectName)) →
      u.site.store.object? container name = s.store.object? container name
  hasContainer : ∀ container, u.site.store.hasContainer container = true ↔
    s.store.hasContainer container = true ∨ ∃ task, Puts u task ∧ task.container = container

/-! ## One step -/

theorem puts_append {outcome : Except Thrown Unit} (h : v.ended = u.ended ++ [((i, task), outcome)])
    {other : Task} : Puts v other ↔
      Puts u other ∨ other = task ∧ task.direction = .upload ∧ outcome = .ok () := by
  unfold Puts
  simp only [h, List.mem_append, List.mem_singleton, Prod.mk.injEq, exists_or, and_or_left]
  refine or_congr_right ⟨?_, ?_⟩
  · rintro ⟨hupload, j, ⟨-, rfl⟩, hok⟩
    exact ⟨rfl, hupload, hok.symm⟩
  · rintro ⟨rfl, hupload, rfl⟩
    exact ⟨hupload, i, ⟨rfl, rfl⟩, rfl⟩

/-- A step changes the containers only as the last one of a put, which then has ended well. -/
theorem Advances.containers_eq (h : Advances u i v) (ht : Tallies tasks u) :
    (v.site.store.containers = u.site.store.containers ∧ ∀ task, Puts v task ↔ Puts u task) ∨
      ∃ task content, task.direction = .upload ∧ v.ended = u.ended ++ [((i, task), .ok ())] ∧
        v.site.store.containers =
          (u.site.store.seed task.container task.objectName content).containers := by
  cases h with
  | stays => exact .inl ⟨rfl, fun _ => Iff.rfl⟩
  | goesOn hstage hmove hnext =>
    rcases hmove.store_eq with ⟨content, -, rfl, -⟩ | ⟨hstore, -⟩
    · cases hnext
    · exact .inl ⟨by rw [hstore], fun _ => Iff.rfl⟩
  | @ends task stage outcome site hstage hmove =>
    rcases hmove.store_eq with ⟨content, rfl, heq, hstore⟩ | ⟨hstore, hok⟩
    · cases heq
      refine .inr ⟨task, content, ht.suits hstage, rfl, ?_⟩
      rw [← hstore]
      rfl
    · have hcontainers := congrArg Store.containers hstore
      refine .inl ⟨hcontainers, fun other => ?_⟩
      rw [puts_append rfl, or_iff_left_iff_imp]
      rintro ⟨-, hupload, rfl⟩
      obtain ⟨content, rfl⟩ := hok rfl
      cases hupload.symm.trans (ht.suits hstage)

/-- Beside the containers a step changes only how many operations are in flight: an operation that
ends is not. -/
theorem Advances.store_eq (h : Advances u i v) :
    v.site.store =
      { u.site.store with
        containers := v.site.store.containers
        inFlight := u.site.store.inFlight - (v.ended.length - u.ended.length) } := by
  cases h with
  | stays => simp
  | goesOn hstage hmove hnext =>
    rcases hmove.store_eq with ⟨content, -, rfl, -⟩ | ⟨hstore, -⟩
    · cases hnext
    · simp [hstore]
  | ends hstage hmove =>
    rcases hmove.store_eq with ⟨content, -, -, hstore⟩ | ⟨hstore, -⟩
    · simp [hstore, Store.seed, Store.leave]
    · simp [hstore, Store.leave]

theorem Advances.length_ended (h : Advances u i v) : u.ended.length ≤ v.ended.length := by
  cases h <;> simp

/-! ## Every moment -/

theorem site_called (tasks : List Task) (s : Site) :
    (called tasks s).site = { s with store := counted tasks s.store 0 } := by
  unfold called
  induction tasks generalizing s with
  | nil => simp [counted, peakOf]
  | cons task rest ih =>
    have hcount : s.store.inFlight + 1 + rest.length = s.store.inFlight + (rest.length + 1) := by
      omega
    have hlone : rest = [] → max s.store.peakInFlight (s.store.inFlight + 1) =
        max s.store.peakInFlight (s.store.inFlight + (rest.length + 1)) := by
      rintro rfl
      rfl
    rw [List.foldl_cons]
    refine (ih (s.enter task.direction task)).trans ?_
    simpa [counted, peakOf, enter, Store.enter, Store.log, hcount] using hlone

namespace Accounts

theorem called (tasks : List Task) (s : Site) : Accounts tasks s (called tasks s) where
  store := by
    rw [site_called]
    rfl
  object? := fun container name _ => by
    rw [site_called]
    rfl
  hasContainer := fun container => by
    rw [site_called]
    refine ⟨.inl, ?_⟩
    rintro (h | ⟨task, ⟨-, i, hmem⟩, -⟩)
    · exact h
    · exact absurd hmem List.not_mem_nil

theorem advances (h : Accounts tasks s u) (ht : Tallies tasks u) (hadvances : Advances u i v) :
    Accounts tasks s v where
  store := by
    have hcount : s.store.inFlight + (tasks.length - u.ended.length) -
        (v.ended.length - u.ended.length) =
          s.store.inFlight + (tasks.length - v.ended.length) := by
      have := hadvances.length_ended
      have := (ht.advances hadvances).length_ended_le
      omega
    rw [hadvances.store_eq, h.store]
    simp only [counted, hcount]
  object? := fun container name haway => by
    rcases hadvances.containers_eq ht with
      ⟨hsame, hputs⟩ | ⟨task, content, hupload, hended, hset⟩
    · rw [Store.object?_congr hsame]
      exact h.object? container name fun task hput => haway task ((hputs task).2 hput)
    · rw [Store.object?_congr hset, Store.object?_seed,
        if_neg (haway task ((puts_append hended).2 (.inr ⟨rfl, hupload, rfl⟩)))]
      exact h.object? container name fun other hput =>
        haway other ((puts_append hended).2 (.inl hput))
  hasContainer := fun container => by
    rcases hadvances.containers_eq ht with
      ⟨hsame, hputs⟩ | ⟨task, content, hupload, hended, hset⟩
    · rw [Store.hasContainer_congr hsame, h.hasContainer]
      simp only [hputs]
    · rw [Store.hasContainer_congr hset, Store.hasContainer_seed, Bool.or_eq_true, beq_iff_eq,
        h.hasContainer]
      simp only [puts_append hended, hupload, or_and_right, exists_or, and_true]
      grind

theorem run (tasks : List Task) (s : Site) (schedule : List Nat) :
    Accounts tasks s ((Underway.called tasks s).run schedule) :=
  run_of_tallies (called tasks s) (fun _ _ _ ht h => h.advances ht) schedule

end Accounts

end Underway

end BulkTransfer
