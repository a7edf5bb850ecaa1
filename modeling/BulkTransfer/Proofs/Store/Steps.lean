import Mathlib.Data.List.Perm.Subperm
import BulkTransfer.Proofs.Store
import BulkTransfer.Proofs.Store.Order

/-!
# Steps of operations called together

`Site.Move` says what one step of an operation does, and `Underway.Advances` what it makes of all
that are under way.  Whatever the schedule, the operations that have ended are listed once each
(`Tallies`), and in a schedule that gives each operation its steps all of them end
(`hasEnded_run`).
-/

namespace BulkTransfer

namespace Site

/-- What the next step of an operation that has not ended makes of its stage and of the site. -/
inductive Move (task : Task) (s : Site) : Stage → Stage → Site → Prop
  | failing {error : Thrown} (h : s.store.failureOf task.objectName = some error) :
    Move task s .waiting (.ended (.error error)) s
  | missing (h : s.store.failureOf task.objectName = none) (hdownload : task.direction = .download)
    (hobject : s.store.object? task.container task.objectName = none) :
    Move task s .waiting (.ended (.error (Store.noObject task.container task.objectName))) s
  | put (h : s.store.failureOf task.objectName = none) (hupload : task.direction = .upload) :
    Move task s .waiting .reading s
  | get {content : Bytes} (h : s.store.failureOf task.objectName = none)
    (hdownload : task.direction = .download)
    (hobject : s.store.object? task.container task.objectName = some content) :
    Move task s .waiting (.opening content) s
  | unread {e : FileError} (h : s.files.read task.localPath = .error e) :
    Move task s .reading (.ended (.error e.thrown)) s
  | read {content : Bytes} (h : s.files.read task.localPath = .ok content) :
    Move task s .reading (.storing content) s
  | stored (content : Bytes) :
    Move task s (.storing content) (.ended (.ok ()))
      { s with store := s.store.seed task.container task.objectName content }
  | unmade {content : Bytes} {e : FileError} {files : Files}
    (h : s.files.makeDirectories (Path.parentText task.localPath) = (.error e, files)) :
    Move task s (.opening content) (.ended (.error e.thrown)) { s with files }
  | made {content : Bytes} {place : Path} {files : Files}
    (h : s.files.makeDirectories (Path.parentText task.localPath) = (.ok place, files)) :
    Move task s (.opening content) (.writing content) { s with files }
  | unwritten {content : Bytes} {e : FileError}
    (h : s.files.write task.localPath content = .error e) :
    Move task s (.writing content) (.ended (.error e.thrown)) s
  | written {content : Bytes} {files : Files}
    (h : s.files.write task.localPath content = .ok files) :
    Move task s (.writing content) (.ended (.ok ())) { s with files }

variable {task : Task} {s t : Site} {stage next : Stage}

theorem move_begin (task : Task) (s : Site) : Move task s .waiting (begin task s) s := by
  unfold begin
  cases hfailure : s.store.failureOf task.objectName with
  | some error => exact .failing hfailure
  | none =>
    cases hdirection : task.direction with
    | upload => exact .put hfailure hdirection
    | download =>
      cases hobject : s.store.object? task.container task.objectName with
      | none => exact .missing hfailure hdirection hobject
      | some content => exact .get hfailure hdirection hobject

theorem move_step (task : Task) (s : Site) (h : stage.outcome? = none) :
    Move task s stage (step task s stage).1 (step task s stage).2 := by
  cases stage with
  | waiting => exact move_begin task s
  | reading =>
    simp only [step]
    split
    · exact .unread ‹_›
    · exact .read ‹_›
  | storing content => exact .stored content
  | opening content =>
    simp only [step]
    split
    · exact .unmade ‹_›
    · exact .made ‹_›
  | writing content =>
    simp only [step]
    split
    · exact .unwritten ‹_›
    · exact .written ‹_›
  | ended outcome => cases h

/-- An operation that takes a step has not ended. -/
theorem Move.outcome?_eq_none (h : Move task s stage next t) : stage.outcome? = none := by
  cases h <;> rfl

/-- A step leaves the store as it is, unless it is the last one of a put that ends well. -/
theorem Move.store_eq (h : Move task s stage next t) :
    (∃ content, stage = .storing content ∧ next = .ended (.ok ()) ∧
      t.store = s.store.seed task.container task.objectName content) ∨
      t.store = s.store ∧ (next = .ended (.ok ()) → ∃ content, stage = .writing content) := by
  cases h with
  | stored content => exact .inl ⟨content, rfl, rfl, rfl⟩
  | written => exact .inr ⟨rfl, fun _ => ⟨_, rfl⟩⟩
  | _ => exact .inr ⟨rfl, fun hok => by cases hok⟩

theorem Stage.eq_ended_of_outcome? {outcome : Except Thrown Unit}
    (h : stage.outcome? = some outcome) : stage = .ended outcome := by
  cases stage <;> cases h
  rfl

/-- Only a put reads a file and stores what it has read, and only a get makes a directory and writes
a file. -/
def Stage.Suits (direction : Direction) : Stage → Prop
  | .reading | .storing _ => direction = .upload
  | .opening _ | .writing _ => direction = .download
  | .waiting | .ended _ => True

theorem Move.suits (h : Move task s stage next t) (hstage : stage.Suits task.direction) :
    next.Suits task.direction := by
  cases h with
  | put _ hupload => exact hupload
  | get _ hdownload => exact hdownload
  | read | made => exact hstage
  | failing | missing | unread | stored | unmade | unwritten | written => trivial

/-- How many steps an operation has left at most. -/
def Stage.left : Stage → Nat
  | .waiting => stepLimit
  | .reading => 2
  | .storing _ => 1
  | .opening _ => 2
  | .writing _ => 1
  | .ended _ => 0

end Site

namespace Underway

open Site

/-- What a step of the operation at a place makes of the operations under way. -/
inductive Advances (u : Underway) (i : Nat) : Underway → Prop
  | stays (h : ∀ task stage, u.stages[i]? = some (task, stage) → stage.outcome? ≠ none) :
    Advances u i u
  | goesOn {task : Task} {stage next : Stage} {s : Site} (h : u.stages[i]? = some (task, stage))
    (hmove : Move task u.site stage next s) (hnext : next.outcome? = none) :
    Advances u i { u with site := s, stages := u.stages.set i (task, next) }
  | ends {task : Task} {stage : Stage} {outcome : Except Thrown Unit} {s : Site}
    (h : u.stages[i]? = some (task, stage)) (hmove : Move task u.site stage (.ended outcome) s) :
    Advances u i
      { site := { s with store := s.store.leave }
        stages := u.stages.set i (task, .ended outcome)
        ended := u.ended ++ [((i, task), outcome)] }

variable {u : Underway} {tasks : List Task} {s : Site} {i : Nat}

theorem advances (u : Underway) (i : Nat) : Advances u i (u.advance i) := by
  unfold advance
  split
  · next h => exact .stays fun task stage hstage => by cases h.symm.trans hstage
  · next task outcome h =>
    refine .stays fun task' stage hstage => ?_
    cases h.symm.trans hstage
    exact Option.some_ne_none outcome
  · next task stage hopen h =>
    have hstage : stage.outcome? = none := by
      cases stage with
      | ended outcome => exact absurd rfl (hopen outcome)
      | _ => rfl
    have hmove := move_step task u.site hstage
    split
    · next outcome site hstep =>
      rw [hstep] at hmove
      exact .ends h hmove
    · next next site hnext hstep =>
      rw [hstep] at hmove
      refine .goesOn h hmove ?_
      cases hout : next.outcome? with
      | none => rfl
      | some outcome => exact absurd (Stage.eq_ended_of_outcome? hout) (hnext outcome)

/-- What every step keeps holds after every schedule. -/
theorem run_of_advances {P : Underway → Prop} (h : P u)
    (hstep : ∀ v w i, P v → Advances v i w → P w) (schedule : List Nat) : P (u.run schedule) := by
  induction schedule generalizing u with
  | nil => exact h
  | cons i rest ih => exact ih (hstep u _ i h (advances u i))

theorem getElem?_set_iff {stages : List (Task × Stage)} {j : Nat} {x y z : Task × Stage}
    (h : stages[i]? = some x) :
    (stages.set i y)[j]? = some z ↔ i = j ∧ y = z ∨ i ≠ j ∧ stages[j]? = some z := by
  obtain ⟨hi, -⟩ := List.getElem?_eq_some_iff.1 h
  rw [List.getElem?_set]
  by_cases hij : i = j
  · simp [hij, hij ▸ hi]
  · simp [hij]

theorem getElem?_set_at {stages : List (Task × Stage)} {x : Task × Stage}
    (h : stages[i]? = some x) (y : Task × Stage) : (stages.set i y)[i]? = some y :=
  (getElem?_set_iff h).2 (.inl ⟨rfl, rfl⟩)

theorem map_fst_set {stages : List (Task × Stage)} {task : Task} {stage next : Stage}
    (h : stages[i]? = some (task, stage)) :
    (stages.set i (task, next)).map Prod.fst = stages.map Prod.fst := by
  obtain ⟨hi, -⟩ := List.getElem?_eq_some_iff.1 h
  apply List.ext_getElem?
  intro j
  rw [List.getElem?_map, List.getElem?_map, List.getElem?_set]
  by_cases hij : i = j
  · subst hij
    rw [if_pos rfl, if_pos hi, h]
    rfl
  · rw [if_neg hij]

/-- At every moment each place has kept its task, and the operations that have ended are listed,
each once. -/
structure Tallies (tasks : List Task) (u : Underway) : Prop where
  tasks_eq : u.stages.map Prod.fst = tasks
  suits : ∀ {i : Nat} {task : Task} {stage : Stage},
    u.stages[i]? = some (task, stage) → stage.Suits task.direction
  ended_iff : ∀ {i : Nat} {task : Task} {outcome : Except Thrown Unit},
    ((i, task), outcome) ∈ u.ended ↔ u.stages[i]? = some (task, .ended outcome)
  nodup : (u.ended.map fun entry => entry.1.1).Nodup

theorem getElem?_called {task : Task} {stage : Stage} :
    (called tasks s).stages[i]? = some (task, stage) ↔
      tasks[i]? = some task ∧ stage = .waiting := by
  simp only [called, List.getElem?_map, Option.map_eq_some_iff, Prod.mk.injEq]
  constructor
  · rintro ⟨task, h, rfl, rfl⟩
    exact ⟨h, rfl⟩
  · rintro ⟨h, rfl⟩
    exact ⟨task, h, rfl, rfl⟩

namespace Tallies

theorem called (tasks : List Task) (s : Site) : Tallies tasks (called tasks s) where
  tasks_eq := by simp [Underway.called, Function.comp_def]
  suits := fun h => by
    obtain ⟨-, rfl⟩ := getElem?_called.1 h
    trivial
  ended_iff := by
    intro i task outcome
    rw [getElem?_called]
    exact ⟨fun h => absurd h List.not_mem_nil, fun ⟨_, h⟩ => by cases h⟩
  nodup := List.nodup_nil

theorem advances {v : Underway} (h : Tallies tasks u) (hadvances : Advances u i v) :
    Tallies tasks v := by
  cases hadvances with
  | stays => exact h
  | goesOn hstage hmove hnext =>
    refine ⟨(map_fst_set hstage).trans h.tasks_eq, fun {j} task' stage' hj => ?_, ?_, h.nodup⟩
    · rcases (getElem?_set_iff hstage).1 hj with ⟨-, heq⟩ | ⟨-, hj⟩
      · cases heq
        exact hmove.suits (h.suits hstage)
      · exact h.suits hj
    · intro j task' outcome
      rw [h.ended_iff, getElem?_set_iff hstage]
      constructor
      · intro hj
        refine .inr ⟨?_, hj⟩
        rintro rfl
        cases hstage.symm.trans hj
        cases hmove.outcome?_eq_none
      · rintro (⟨-, heq⟩ | ⟨-, hj⟩)
        · cases heq
          cases hnext
        · exact hj
  | @ends task stage outcome site hstage hmove =>
    have hfresh : ∀ entry ∈ u.ended, entry.1.1 ≠ i := by
      rintro ⟨⟨j, task'⟩, outcome'⟩ hmem rfl
      cases hstage.symm.trans (h.ended_iff.1 hmem)
      cases hmove.outcome?_eq_none
    refine ⟨(map_fst_set hstage).trans h.tasks_eq, fun {j} task' stage' hj => ?_, ?_, ?_⟩
    · rcases (getElem?_set_iff hstage).1 hj with ⟨-, heq⟩ | ⟨-, hj⟩
      · cases heq
        trivial
      · exact h.suits hj
    · intro j task' outcome'
      rw [List.mem_append, List.mem_singleton, getElem?_set_iff hstage, Prod.mk.injEq,
        Prod.mk.injEq]
      constructor
      · rintro (hmem | ⟨⟨rfl, rfl⟩, rfl⟩)
        · exact .inr ⟨(hfresh _ hmem).symm, h.ended_iff.1 hmem⟩
        · exact .inl ⟨rfl, rfl⟩
      · rintro (⟨rfl, heq⟩ | ⟨-, hj⟩)
        · cases heq
          exact .inr ⟨⟨rfl, rfl⟩, rfl⟩
        · exact .inl (h.ended_iff.2 hj)
    · rw [List.map_append, List.nodup_append]
      refine ⟨h.nodup, List.pairwise_singleton _ _, ?_⟩
      rintro j hj _ hi
      obtain ⟨entry, hentry, rfl⟩ := List.mem_map.1 hj
      obtain rfl := List.mem_singleton.1 hi
      exact hfresh entry hentry

theorem run (tasks : List Task) (s : Site) (schedule : List Nat) :
    Tallies tasks ((Underway.called tasks s).run schedule) :=
  run_of_advances (called tasks s) (fun _ _ _ h => h.advances) schedule

theorem getElem?_tasks (h : Tallies tasks u) {task : Task} {stage : Stage}
    (hstage : u.stages[i]? = some (task, stage)) : tasks[i]? = some task := by
  rw [← h.tasks_eq, List.getElem?_map, hstage]
  rfl

theorem exists_stage (h : Tallies tasks u) {task : Task} (htask : tasks[i]? = some task) :
    ∃ stage, u.stages[i]? = some (task, stage) := by
  rw [← h.tasks_eq, List.getElem?_map, Option.map_eq_some_iff] at htask
  obtain ⟨⟨_, stage⟩, hstage, rfl⟩ := htask
  exact ⟨stage, hstage⟩

theorem mem_placed (h : Tallies tasks u) {a : Nat × Task} (ha : a ∈ u.ended.map Prod.fst) :
    a ∈ placed tasks := by
  obtain ⟨⟨a, outcome⟩, hmem, rfl⟩ := List.mem_map.1 ha
  exact mem_placed_iff.2 (h.getElem?_tasks (h.ended_iff.1 hmem))

theorem nodup_ended (h : Tallies tasks u) : (u.ended.map Prod.fst).Nodup := by
  refine List.Nodup.of_map Prod.fst ?_
  rw [List.map_map]
  exact h.nodup

/-- No more operations have ended than were called. -/
theorem length_ended_le (h : Tallies tasks u) : u.ended.length ≤ tasks.length := by
  have hsub := h.nodup_ended.subperm fun _ => h.mem_placed
  simpa [placed] using hsub.length_le

end Tallies

/-- What holds when operations are called and is kept by every step of them holds after every
schedule. -/
theorem run_of_tallies {P : Underway → Prop} (h : P (called tasks s))
    (hstep : ∀ v w i, Tallies tasks v → P v → Advances v i w → P w) (schedule : List Nat) :
    P ((called tasks s).run schedule) := by
  have hboth : ∀ v w i, Tallies tasks v ∧ P v → Advances v i w → Tallies tasks w ∧ P w :=
    fun v w i ⟨ht, hp⟩ hadvances => ⟨ht.advances hadvances, hstep v w i ht hp hadvances⟩
  exact (run_of_advances ⟨.called tasks s, h⟩ hboth schedule).2

/-! ## All operations end -/

/-- All operations have ended. -/
def HasEnded (u : Underway) : Prop := ∀ entry ∈ u.stages, entry.2.outcome?.isSome

namespace HasEnded

theorem exists_outcome (h : HasEnded u) {task : Task} {stage : Stage}
    (hstage : u.stages[i]? = some (task, stage)) : ∃ outcome, stage = .ended outcome := by
  obtain ⟨outcome, houtcome⟩ := Option.isSome_iff_exists.1 (h _ (List.mem_of_getElem? hstage))
  exact ⟨outcome, Stage.eq_ended_of_outcome? houtcome⟩

/-- When all have ended, each is listed as ended. -/
theorem perm (h : HasEnded u) (ht : Tallies tasks u) :
    (u.ended.map Prod.fst).Perm (placed tasks) := by
  refine (List.perm_ext_iff_of_nodup ht.nodup_ended (nodup_placed tasks)).2
    fun a => ⟨ht.mem_placed, fun ha => ?_⟩
  obtain ⟨stage, hstage⟩ := ht.exists_stage (mem_placed_iff.1 ha)
  obtain ⟨outcome, rfl⟩ := h.exists_outcome hstage
  exact List.mem_map.2 ⟨(a, outcome), ht.ended_iff.2 hstage, rfl⟩

theorem length_ended (h : HasEnded u) (ht : Tallies tasks u) : u.ended.length = tasks.length := by
  simpa [placed] using (h.perm ht).length_eq

/-- When all have ended, each place has its outcome. -/
theorem map_outcomes (h : HasEnded u) : u.outcomes.map some = u.stages.map (·.2.outcome?) :=
  OrderedMap.map_some_filterMap h

end HasEnded

end Underway

end BulkTransfer
