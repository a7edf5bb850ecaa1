import BulkTransfer.Proofs.Pool.Lifting
import BulkTransfer.Proofs.Transfer.Download

/-!
# Notes of operations

`Transport.noting` notes the call and the end of each operation beside the world it works on.  Notes
change nothing else: a download with notes goes as the download without them (`download_noting`).
-/

namespace BulkTransfer

variable {σ τ : Type}

inductive Note where
  | called (direction : Direction) (task : Task)
  | ended (direction : Direction) (task : Task) (outcome : Except Thrown Unit)

/-- The operation that a note says was called. -/
def Note.call? : Note → Option (Direction × Task)
  | .called direction task => some (direction, task)
  | .ended _ _ _ => none

/-- The operations that notes say were called, in their order. -/
def calls (notes : List Note) : List (Direction × Task) := notes.filterMap Note.call?

/-- A run beside notes, which it leaves as they are. -/
def Ran.beside {α : Type} (notes : List Note) (r : Ran σ α) : Ran (σ × List Note) α :=
  ⟨r.outcome, (r.world, notes), r.events⟩

def notingFinish (direction : Direction) (task : Task) (finish : σ → Except Thrown Unit × σ)
    (w : σ × List Note) : Except Thrown Unit × (σ × List Note) :=
  let (outcome, world) := finish w.1
  (outcome, world, w.2 ++ [.ended direction task outcome])

/-- An operation with notes of its call and of its end. -/
def noting (direction : Direction) (operation : Task → σ → Launch σ × σ) (task : Task)
    (w : σ × List Note) : Launch (σ × List Note) × (σ × List Note) :=
  let (launch, world) := operation task w.1
  let notes := w.2 ++ [.called direction task]
  match launch with
  | .throws error => (.throws error, world, notes ++ [.ended direction task (.error error)])
  | .refused error => (.refused error, world, notes ++ [.ended direction task (.error error)])
  | .waits delay finish => (.waits delay (notingFinish direction task finish), world, notes)

/-- A transport that notes the calls and the ends of its operations. -/
def Transport.noting (transport : Transport σ) : Transport (σ × List Note) where
  files := fun w => transport.files w.1
  ensureContainer := fun container w => (transport.ensureContainer container w.1).beside w.2
  list := fun container start w => (transport.list container start w.1).beside w.2
  put := BulkTransfer.noting .upload transport.put
  get := BulkTransfer.noting .download transport.get

/-! ## Notes change nothing else -/

theorem noting_lifts (direction : Direction) (operation : Task → σ → Launch σ × σ) (task : Task)
    (w : σ × List Note) :
    (noting direction operation task w).1.Lifts Prod.fst (operation task w.1).1 ∧
      (noting direction operation task w).2.1 = (operation task w.1).2 := by
  rw [noting]
  rcases operation task w.1 with ⟨launch, world⟩
  cases launch with
  | throws error => exact ⟨.throws error, rfl⟩
  | refused error => exact ⟨.refused error, rfl⟩
  | waits delay finish => exact ⟨.waits delay fun _ => ⟨rfl, rfl⟩, rfl⟩

/-! ## What is noted -/

section

variable (direction : Direction) (operation : Task → σ → Launch σ × σ) (task : Task)
  (w : σ × List Note)

theorem calls_noting :
    calls (noting direction operation task w).2.2 = calls w.2 ++ [(direction, task)] := by
  rw [noting]
  rcases operation task w.1 with ⟨launch, world⟩
  cases launch <;> simp [calls, Note.call?]

theorem calls_notingFinish (finish : σ → Except Thrown Unit × σ) :
    calls (notingFinish direction task finish w).2.2 = calls w.2 := by
  simp [notingFinish, calls, Note.call?]

theorem subset_noting : w.2 ⊆ (noting direction operation task w).2.2 := by
  rw [noting]
  rcases operation task w.1 with ⟨launch, world⟩
  cases launch <;> simp

theorem subset_notingFinish (finish : σ → Except Thrown Unit × σ) :
    w.2 ⊆ (notingFinish direction task finish w).2.2 :=
  List.subset_append_left _ _

theorem ended_mem_notingFinish (finish : σ → Except Thrown Unit × σ) :
    .ended direction task (notingFinish direction task finish w).1 ∈
      (notingFinish direction task finish w).2.2 := by
  simp [notingFinish]

variable {direction operation task w}

/-- An operation that ends at once has its end noted. -/
theorem ended_mem_noting {error : Thrown}
    (h : (noting direction operation task w).1 = .throws error ∨
      (noting direction operation task w).1 = .refused error) :
    .ended direction task (.error error) ∈ (noting direction operation task w).2.2 := by
  rw [noting] at h ⊢
  generalize operation task w.1 = launched at h ⊢
  obtain ⟨launch, world⟩ := launched
  cases launch <;> simp_all

theorem exists_notingFinish_of_waits {delay : Time}
    {finish : σ × List Note → Except Thrown Unit × (σ × List Note)}
    (h : (noting direction operation task w).1 = .waits delay finish) :
    ∃ plain, finish = notingFinish direction task plain := by
  rw [noting] at h
  generalize operation task w.1 = launched at h
  obtain ⟨launch, world⟩ := launched
  cases launch <;> cases h
  exact ⟨_, rfl⟩

end

namespace Transfer

theorem downloadJob_noting_lifts (transport : Transport σ) (cwd : Path) (destination : Text)
    (collisions : OrderedMap Text Text) (task : Task) :
    (downloadJob transport.noting cwd destination collisions task).Lifts Prod.fst
      (downloadJob transport cwd destination collisions task) := by
  cases hr : refusal? cwd destination collisions task with
  | some error =>
    refine ⟨rfl, fun w => ?_, fun w => ?_⟩
    all_goals rw [call_of_refused _ hr, call_of_refused _ hr]
    exact .refused error
  | none =>
    refine ⟨rfl, fun w => ?_, fun w => ?_⟩
    all_goals rw [call_of_not_refused _ hr, call_of_not_refused _ hr]
    · exact (noting_lifts .download transport.get task w).1
    · exact (noting_lifts .download transport.get task w).2

theorem ofContainer_noting (transport : Transport σ) (cwd : Path) (container directory : Text)
    (keyPrefix : Option Text) (world : σ) (notes : List Note) :
    Enumeration.ofContainer transport.noting.list cwd container directory keyPrefix (world, notes) =
      (Enumeration.ofContainer transport.list cwd container directory keyPrefix world).beside
        notes := by
  have hlist : transport.noting.list = fun container start w =>
    (transport.list container start w.1).beside w.2 := rfl
  simp only [Enumeration.ofContainer, hlist, Ran.beside]
  split <;> rfl

/-- A download with notes goes as the download without them. -/
theorem download_noting (host : Host) (transport : Transport σ) (request : Request)
    (observer : Observer τ) (world : σ) (notes : List Note) :
    let noted := download host transport.noting request observer (world, notes)
    let plain := download host transport request observer world
    noted.outcome = plain.outcome ∧ noted.world.1 = plain.world ∧ noted.events = plain.events := by
  cases hf : fault? request.container (concurrencyOf host request).1 request.keyPrefix with
  | some fault => simp [download, check, hf, Ran.andThen, Ran.throw, Ran.after]
  | none =>
    have hfiles : transport.noting.files (world, notes) = transport.files world := rfl
    simp only [download, check_of_fault?_eq_none host hf, Ran.andThen, ofContainer_noting, hfiles]
    generalize Enumeration.ofContainer transport.list _ _ _ _ world = enumerated
    obtain ⟨outcome, after, events⟩ := enumerated
    cases outcome with
    | error error => exact ⟨rfl, rfl, rfl⟩
    | ok tasks =>
      have hjobs := List.forall₂_map_left_iff.2 (List.forall₂_map_right_iff.2
        (List.forall₂_same.2 fun task (_ : task ∈ tasks) =>
          downloadJob_noting_lifts transport (transport.files world).cwd request.directory
            (Collisions.find (transport.files world).cwd tasks) task))
      obtain ⟨hout, hworld, hevents, -⟩ := Dispatch.run_lifts host.clock hjobs
        (concurrencyOf host request).1 observer (after, notes)
      simp only [Ran.beside, Ran.after]
      exact ⟨hout, hworld, by rw [hevents]⟩

end Transfer

end BulkTransfer
