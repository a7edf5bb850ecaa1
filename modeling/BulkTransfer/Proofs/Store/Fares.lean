import BulkTransfer.Proofs.Store.Alike
import BulkTransfer.Proofs.Store.Effects

/-!
# How an operation fares among others

An operation under way among others fares as it would alone on the site that it finds when it takes
effect (`Fares`): it has the same outcome and leaves the same files, and what it makes of the
containers is its effect (`Fares.containers_eq`).
-/

namespace BulkTransfer

namespace Site

variable {s t view : Site} {task : Task} {directory : Path} {name : Text} {stage next : Stage}

/-- An operation makes directories on the way to its file only, and sets no other file; a put does
neither. -/
theorem builds_work (hn : Names task directory name) (hlinkless : s.files.Linkless) :
    Files.Builds
      (fun path => task.direction = .download ∧ path <+: directory.map Text.stored)
      (fun path => task.direction = .download ∧ path = target directory name)
      s.files (work task.direction task s).2.files := by
  cases hdirection : task.direction with
  | upload =>
    have hfiles : (storeFile task s).2.files = s.files := by
      unfold storeFile
      split
      · rfl
      · split <;> rfl
    exact hfiles ▸ .refl _ _ _
  | download =>
    show Files.Builds _ _ s.files (fetchFile task s).2.files
    cases hf : s.store.failureOf task.objectName with
    | some error =>
      rw [fetchFile_of_failure hf]
      exact .refl _ _ _
    | none =>
      cases ho : s.objectOf task with
      | none =>
        rw [fetchFile_of_no_object hf ho]
        exact .refl _ _ _
      | some content =>
        rw [fetchFile_of_object hf ho, hn.path]
        obtain ⟨hbuilds, -⟩ :=
          Files.of_writeUnder_straight hn.normal (hlinkless.straight _ _) rfl
        exact hbuilds.mono (fun _ h => ⟨rfl, h⟩) fun _ h => ⟨rfl, h.2⟩

/-- A put writes no files. -/
theorem Move.files_of_upload (h : Move task s stage next t) (hupload : task.direction = .upload)
    (hsuits : stage.Suits task.direction) : t.files = s.files := by
  cases h with
  | unmade | made | written => cases hupload.symm.trans hsuits
  | _ => rfl

/-- A put that is to store a content has read it from its file. -/
def HasRead (s : Site) (task : Task) : Stage → Prop
  | .storing content => s.files.read task.localPath = .ok content
  | _ => True

/-- An operation at a stage will have ended as it would alone on a site, by the rest of its work on
another one that has the files which were there at first until the operation writes some. -/
structure Fares (s view : Site) (task : Task) (stage : Stage) (t : Site) : Prop where
  waits : stage = .waiting → t = view
  outcome : (rest task t stage).1 = (work task.direction task view).1
  files : (rest task t stage).2.files = (work task.direction task view).2.files
  source : task.direction = .upload → t.files = s.files
  read : HasRead s task stage

namespace Fares

theorem waiting (h : view.files = s.files) : Fares s view task .waiting view :=
  ⟨fun _ => rfl, rfl, rfl, fun _ => h, trivial⟩

/-- A put does not mind other containers. -/
theorem of_upload {containers containers' : OrderedMap Text Objects}
    (h : Fares s (s.withContainers containers) task stage t) (hupload : task.direction = .upload)
    (hbegun : stage ≠ .waiting) : Fares s (s.withContainers containers') task stage t := by
  have hsame := storeFile_withContainers task s containers containers'
  obtain ⟨-, houtcome, hfiles, hsource, hread⟩ := h
  rw [hupload] at houtcome hfiles
  exact ⟨fun hstage => absurd hstage hbegun, hupload ▸ houtcome.trans hsame.1,
    hupload ▸ hfiles.trans hsame.2, hsource, hread⟩

/-- A step, which the operation takes alike on the other site. -/
theorem move {now next' t' : Site} (h : Fares s view task stage t)
    (halike : Alike task directory name stage t now) (hsuits : stage.Suits task.direction)
    (hmove : Move task now stage next next') (hmove' : Move task t stage next t') :
    Fares s view task next t' where
  waits := fun hnext => absurd hnext hmove.ne_waiting
  outcome := by rw [hmove'.rest_eq, h.outcome]
  files := by rw [hmove'.rest_eq, h.files]
  source := fun hupload => (hmove'.files_of_upload hupload hsuits).trans (h.source hupload)
  read := by
    cases hmove with
    | read hread =>
      rw [halike.read_eq hsuits, h.source hsuits] at hread
      exact hread
    | _ => trivial

/-- What a step makes of the containers is the effect that the operation takes in it. -/
theorem containers_eq {now next' t' : Site} {order : List (Nat × Task)} {i : Nat}
    {containers : OrderedMap Text Objects}
    (h : Fares s (s.withContainers containers) task stage t)
    (h' : Fares s (s.withContainers containers) task next t')
    (hsuits : stage.Suits task.direction) (hmove : Move task now stage next next')
    (hnow : now.store.containers = stored s order) :
    next'.store.containers = stored s (order ++
      if next.hasTaken task.direction && !stage.hasTaken task.direction then [(i, task)]
      else []) := by
  have houtcome := h'.outcome
  rcases hmove.store_eq with ⟨content, rfl, rfl, hstore⟩ | ⟨hstore, hok⟩
  · have hupload : task.direction = .upload := hsuits
    rw [hupload] at houtcome ⊢
    rcases storeFile_cases task s with ⟨content', hread, hstores⟩ | ⟨error, hfails⟩
    · cases hread.symm.trans (h.read : s.files.read task.localPath = .ok content)
      show next'.store.containers = stored s (order ++ [(i, task)])
      rw [stored_concat, hupload, hstore]
      simp only [work, hstores, Store.seed, hnow]
      rfl
    · simp only [work, hfails] at houtcome
      cases houtcome
  · rw [hstore, hnow]
    split
    · next hnew =>
      rw [Bool.and_eq_true, Bool.not_eq_true'] at hnew
      rw [stored_concat]
      cases hdirection : task.direction with
      | download =>
        simp only [work, store_fetchFile]
        rfl
      | upload =>
        rw [hdirection] at houtcome hnew hsuits
        obtain ⟨outcome, rfl⟩ := Stage.exists_outcome_of_hasTaken hnew.1
        rcases storeFile_cases task s with ⟨content', -, hstores⟩ | ⟨error, hfails⟩
        · simp only [work, hstores] at houtcome
          cases houtcome
          obtain ⟨content, rfl⟩ := hok rfl
          cases hsuits
        · simp only [work, hfails]
          rfl
    · rw [List.append_nil]

end Fares

end Site

end BulkTransfer
