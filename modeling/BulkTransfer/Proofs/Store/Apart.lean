import BulkTransfer.Proofs.Store.Fares

/-!
# Operations that keep apart

The files of operations keep apart when that of a get is in nobody's way (`FilesApart`).  Then each
operation ends, in every schedule, as it would alone on the site that it finds when it takes effect,
and what is left of the files is what each leaves alone (`Along`).  So schedules in which operations
take effect in one order come out the same (`eq_of_effects`), and all schedules do when moreover no
put shares its object (`eq_of_apart`).
-/

namespace BulkTransfer

namespace Site

open Transfer (placeOf placeOf_of_path)

variable {s t view : Site} {tasks : List Task} {task a b : Task} {directory : Path} {name : Text}
  {stage next : Stage} {order : List (Nat × Task)} {i j : Nat}

/-! ## Keeping apart -/

/-- The file of a task is in the way of another one's: it has the same place, or the way to the
other one leads over its place, where nothing stands. -/
def InTheWay (s : Site) (a b : Task) : Prop :=
  placeOf s a <+: placeOf s b ∧
    (placeOf s a = placeOf s b ∨ s.files.entry? (placeOf s a) = none)

/-- A task keeps off the file of another one: only puts may have files in each other's way. -/
def KeepsOff (s : Site) (a b : Task) : Prop :=
  InTheWay s a b → a.direction = .upload ∧ b.direction = .upload

/-- The files of operations keep apart: there are no links, each has a path in normal form that
leads, for a put, to where its file would be, and any two keep off each other. -/
structure FilesApart (s : Site) (tasks : List Task) : Prop where
  linkless : s.files.Linkless
  names : ∀ task ∈ tasks, ∃ directory name, Names task directory name
  led : ∀ task ∈ tasks, task.direction = .upload → ∃ place,
    s.files.locateFor .openFile .use task.localPath = .ok place
  apart : tasks.Pairwise fun a b => KeepsOff s a b ∧ KeepsOff s b a

/-- The objects of operations keep apart: only gets share one. -/
def ObjectsApart (tasks : List Task) : Prop :=
  tasks.Pairwise fun a b => a.container = b.container → a.objectName = b.objectName →
    a.direction = .download ∧ b.direction = .download

theorem Names.placeOf_eq (hn : Names task directory name) (s : Site) :
    placeOf s task = target directory name :=
  placeOf_of_path hn.normal hn.path

theorem FilesApart.keepsOff (h : FilesApart s tasks) (ha : tasks[i]? = some a)
    (hb : tasks[j]? = some b) (hij : i ≠ j) : KeepsOff s a b := by
  obtain ⟨hi, rfl⟩ := List.getElem?_eq_some_iff.1 ha
  obtain ⟨hj, rfl⟩ := List.getElem?_eq_some_iff.1 hb
  have hpairs := List.pairwise_iff_getElem.1 h.apart
  rcases Nat.lt_or_gt_of_ne hij with hlt | hgt
  · exact (hpairs i j hi hj hlt).1
  · exact (hpairs j i hj hi hgt).2

/-- Two operations at different places that share an object are gets. -/
theorem ObjectsApart.eq_download (h : ObjectsApart tasks) (ha : tasks[i]? = some a)
    (hb : tasks[j]? = some b) (hij : i ≠ j) (hcontainer : a.container = b.container)
    (hname : a.objectName = b.objectName) : a.direction = .download := by
  obtain ⟨hi, rfl⟩ := List.getElem?_eq_some_iff.1 ha
  obtain ⟨hj, rfl⟩ := List.getElem?_eq_some_iff.1 hb
  have hpairs := List.pairwise_iff_getElem.1 h
  rcases Nat.lt_or_gt_of_ne hij with hlt | hgt
  · exact (hpairs i j hi hj hlt hcontainer hname).1
  · exact (hpairs j i hj hi hgt hcontainer.symm hname.symm).2

/-- Where objects keep apart, no other operation of an order puts that of a task. -/
theorem ObjectsApart.away (h : ObjectsApart tasks) (htasks : ∀ a ∈ order, tasks[a.1]? = some a.2)
    (htask : tasks[i]? = some task) :
    ∀ a ∈ order, a ≠ (i, task) → a.2.direction = .upload →
      ¬ (task.container = a.2.container ∧ task.objectName = a.2.objectName) := by
  rintro a ha hne hupload ⟨hcontainer, hname⟩
  have hij : a.1 ≠ i := by
    rintro rfl
    exact hne (Prod.ext rfl (Option.some.inj ((htasks a ha).symm.trans htask)))
  have hdownload := h.eq_download (htasks a ha) htask hij hcontainer.symm hname.symm
  cases hupload.symm.trans hdownload

end Site

namespace Underway

open Site Transfer

variable {u v : Underway} {s s' : Site} {tasks : List Task} {task other : Task}
  {stage stage' next : Stage} {done done' : List (Nat × Task)} {i j : Nat}

/-! ## What each operation finds -/

theorem viewOf_of_notMem (h : i ∉ done.map Prod.fst) :
    viewOf s done i = s.withContainers (stored s done) := by
  have hearlier := earlier_of_notMem h []
  rw [List.append_nil] at hearlier
  rw [viewOf, hearlier]
  simp [earlier]

theorem viewOf_append (h : i ∈ done.map Prod.fst) (more : List (Nat × Task)) :
    viewOf s (done ++ more) i = viewOf s done i := by
  rw [viewOf, earlier_append h, viewOf]

/-- To take effect does not change what an operation finds itself. -/
theorem Effected.viewOf_effectOf (h : Effected done u) (hadvances : Advances u i v) :
    viewOf s (done ++ u.effectOf v i) i = viewOf s done i := by
  by_cases hmem : i ∈ done.map Prod.fst
  · exact viewOf_append hmem _
  · rcases hadvances.eq_or_move with rfl | ⟨task, stage, next, s', hstage, -, hstages, -⟩
    · rw [effectOf_self, List.append_nil]
    · rw [viewOf, viewOf_of_notMem hmem, earlier_of_notMem hmem, effectOf_of_stages hstage hstages]
      split <;> simp [earlier]

/-- An operation that has taken effect leaves a directory when it is alone. -/
def Made (s : Site) (done : List (Nat × Task)) (path : Path) : Prop :=
  ∃ a ∈ done,
    Files.entry? (work a.2.direction a.2 (viewOf s done a.1)).2.files path = some .directory

/-- The file of a get has its place here. -/
def Written (s : Site) (tasks : List Task) (path : Path) : Prop :=
  ∃ task ∈ tasks, task.direction = .download ∧ placeOf s task = path

theorem Made.append {path : Path} (h : Made s done path) (more : List (Nat × Task)) :
    Made s (done ++ more) path := by
  obtain ⟨a, ha, hpath⟩ := h
  refine ⟨a, List.mem_append_left more ha, ?_⟩
  rwa [viewOf_append (List.mem_map_of_mem ha)]

/-- At every moment of operations whose files keep apart, each of them fares as it would alone on
the site that it finds when it takes effect, on a site that is alike for it; the store holds what
the effects taken leave in it, and the files are what the operations that took them leave alone. -/
structure Along (s : Site) (tasks : List Task) (done : List (Nat × Task)) (u : Underway) :
    Prop where
  effected : Effected done u
  failures : u.site.store.failures = s.store.failures
  containers : u.site.store.containers = stored s done
  builds : Files.Builds (Made s done) (Written s tasks) s.files u.site.files
  fares : ∀ {i : Nat} {task : Task} {stage : Stage}, u.stages[i]? = some (task, stage) →
    ∃ directory name t, Names task directory name ∧ Fares s (viewOf s done i) task stage t ∧
      Alike task directory name stage t u.site

namespace Along

theorem called (h : FilesApart s tasks) : Along s tasks [] (called tasks s) where
  effected := .called tasks s
  failures := by
    rw [site_called]
    rfl
  containers := by
    rw [site_called]
    rfl
  builds := by
    rw [site_called]
    exact .refl _ _ _
  fares := by
    intro i task stage hstage
    obtain ⟨htask, rfl⟩ := getElem?_called.1 hstage
    have hmem := List.mem_of_getElem? htask
    obtain ⟨directory, name, hn⟩ := h.names task hmem
    refine ⟨directory, name, viewOf s [] i, hn, .waiting rfl, ?_⟩
    rw [site_called]
    exact { Alike.refl hn h.linkless (h.led task hmem) with }

/-- A step of one operation leaves the sites alike for another one. -/
theorem frame (h : Along s tasks done u) (hapart : FilesApart s tasks) (ht : Tallies tasks u)
    (hstage : u.stages[i]? = some (task, stage)) (hmove : Move task u.site stage next s')
    (hj : u.stages[j]? = some (other, stage')) (hij : i ≠ j) {directory : Path} {name : Text}
    {t : Site} (hn : Names other directory name)
    (halike : Alike other directory name stage' t u.site) :
    Alike other directory name stage' t s' := by
  obtain ⟨directory', name', t', hn', hfares, halike'⟩ := h.fares hstage
  have hoff := hapart.keepsOff (ht.getElem?_tasks hstage) (ht.getElem?_tasks hj) hij
  have hoff' := hapart.keepsOff (ht.getElem?_tasks hj) (ht.getElem?_tasks hstage) hij.symm
  have hplace := hn.placeOf_eq s
  have hplace' := hn'.placeOf_eq s
  have hdone := builds_work (s := viewOf s done i) hn' hapart.linkless
  have hbuilds := halike'.builds hn' (ht.suits hstage) hmove
  rw [hfares.files] at hbuilds
  refine halike.frame hn ?_ hbuilds ?_ ?_ ?_
  · rcases hmove.store_eq with ⟨content, -, -, hstore⟩ | ⟨hstore, -⟩
    · rw [hstore]
      rfl
    · rw [hstore]
  -- A directory is made at the other's place only on the way to the own one.
  · intro hmade hnone
    have hfree := h.builds.eq_none hnone
    obtain ⟨hdownload, hway⟩ := hdone.made_of_directory hfree hmade
    have hinway : InTheWay s other task := by
      rw [InTheWay, hplace, hplace']
      exact ⟨hway.trans (List.prefix_append _ _), .inr hfree⟩
    obtain ⟨-, hupload⟩ := hoff' hinway
    cases hdownload.symm.trans hupload
  · rintro ⟨hdownload, hsame⟩
    have hinway : InTheWay s task other := by
      rw [InTheWay, hplace, hplace', hsame]
      exact ⟨List.prefix_refl _, .inl rfl⟩
    obtain ⟨hupload, -⟩ := hoff hinway
    cases hdownload.symm.trans hupload
  · rintro q hq ⟨hdownload, rfl⟩ hnone
    have hinway : InTheWay s task other := by
      rw [InTheWay, hplace, hplace']
      exact ⟨hq.trans (List.prefix_append _ _), .inr (h.builds.eq_none hnone)⟩
    obtain ⟨hupload, -⟩ := hoff hinway
    cases hdownload.symm.trans hupload

/-- What an operation finds changes with the effects of others only until it begins. -/
theorem exists_fares (hj : u.stages[j]? = some (other, stage')) (h : Effected done u)
    {directory : Path} {name : Text} {t : Site} (hfares : Fares s (viewOf s done j) other stage' t)
    (halike : Alike other directory name stage' t s') (more : List (Nat × Task)) :
    ∃ t', Fares s (viewOf s (done ++ more) j) other stage' t' ∧
      Alike other directory name stage' t' s' := by
  by_cases hwaiting : stage' = .waiting
  · subst hwaiting
    obtain rfl := hfares.waits rfl
    exact ⟨viewOf s (done ++ more) j, .waiting rfl, { halike with }⟩
  refine ⟨t, ?_, halike⟩
  cases hdirection : other.direction with
  | upload => exact hfares.of_upload hdirection hwaiting
  | download =>
    have htaken : stage'.hasTaken other.direction = true := by
      rw [hdirection]
      exact Stage.hasTaken_download hwaiting
    rwa [viewOf_append ((h.mem_fst_iff hj).2 htaken)]

/-- A step writes what its operation would alone; a get has taken effect before it writes. -/
theorem builds_move (h : Along s tasks done u) (ht : Tallies tasks u)
    (hstage : u.stages[i]? = some (task, stage)) (hmove : Move task u.site stage next s')
    {directory : Path} {name : Text} {t : Site} {more : List (Nat × Task)}
    (hn : Names task directory name) (hview : viewOf s (done ++ more) i = viewOf s done i)
    (hfares : Fares s (viewOf s done i) task stage t)
    (halike : Alike task directory name stage t u.site)
    (htaken : task.direction = .download → (i, task) ∈ done ++ more) :
    Files.Builds (Made s (done ++ more)) (Written s tasks) s.files s'.files := by
  have hsuits := ht.suits hstage
  have hbefore := h.builds.mono (fun _ hmade => hmade.append more) fun _ => id
  cases hdirection : task.direction with
  | upload =>
    rw [hmove.files_of_upload hdirection hsuits]
    exact hbefore
  | download =>
    refine hbefore.trans ((halike.builds hn hsuits hmove).mono ?_ ?_)
    · intro path hpath
      rw [hfares.files, ← hview] at hpath
      exact ⟨_, htaken hdirection, hpath⟩
    · rintro path ⟨-, rfl⟩
      exact ⟨task, List.mem_of_getElem? (ht.getElem?_tasks hstage), hdirection, hn.placeOf_eq s⟩

/-- A step of one operation, with the effect that it takes in it. -/
theorem advances (h : Along s tasks done u) (hapart : FilesApart s tasks) (ht : Tallies tasks u)
    (hadvances : Advances u i v) : Along s tasks (done ++ u.effectOf v i) v := by
  have hview := h.effected.viewOf_effectOf (s := s) hadvances
  have heffected := h.effected.advances hadvances
  rcases hadvances.eq_or_move with
    rfl | ⟨task, stage, next, s', hstage, hmove, hstages, n, hsite⟩
  · rwa [effectOf_self, List.append_nil]
  obtain ⟨directory, name, t, hn, hfares, halike⟩ := h.fares hstage
  have hsuits := ht.suits hstage
  have hobject : stage = .waiting → task.direction = .download →
      u.site.objectOf task = t.objectOf task := by
    rintro rfl -
    have haway : i ∉ done.map Prod.fst := by
      rw [h.effected.mem_fst_iff hstage]
      exact Bool.false_ne_true
    rw [hfares.waits rfl, viewOf_of_notMem haway]
    exact objectOf_congr h.containers task
  obtain ⟨t', hmove', halike'⟩ := halike.move hn hobject hsuits hmove
  have hfares' := hfares.move halike hsuits hmove hmove'
  have hstore : v.site.store.containers = s'.store.containers ∧
      v.site.store.failures = s'.store.failures ∧ v.site.files = s'.files := by
    rw [hsite]
    exact ⟨rfl, rfl, rfl⟩
  have hsame : ∀ {other directory name stage t}, Alike other directory name stage t s' →
      Alike other directory name stage t v.site := by
    intro other directory name stage t halike
    rw [hsite]
    exact { halike with }
  refine ⟨heffected, ?_, ?_, ?_, fun {j other stage'} hj => ?_⟩
  · rw [hstore.2.1, ← h.failures]
    rcases hmove.store_eq with ⟨content, -, -, hset⟩ | ⟨hkept, -⟩
    · rw [hset]
      rfl
    · rw [hkept]
  · rw [hstore.1, effectOf_of_stages hstage hstages]
    exact hfares.containers_eq hfares' hsuits hmove h.containers
  · rw [hstore.2.2]
    refine h.builds_move ht hstage hmove hn hview hfares halike fun hdownload => ?_
    refine heffected.mem_iff.2 ⟨next, hstages ▸ getElem?_set_at hstage _, ?_⟩
    rw [hdownload]
    exact Stage.hasTaken_download hmove.ne_waiting
  rw [hstages] at hj
  rcases (getElem?_set_iff hstage).1 hj with ⟨rfl, heq⟩ | ⟨hij, hj⟩
  · cases heq
    exact ⟨directory, name, t', hn, hview ▸ hfares', hsame halike'⟩
  · obtain ⟨directory', name', t'', hn', hfares'', halike''⟩ := h.fares hj
    have hframed := h.frame hapart ht hstage hmove hj hij hn' halike''
    obtain ⟨t₁, hfares₁, halike₁⟩ := exists_fares hj h.effected hfares'' hframed (u.effectOf v i)
    exact ⟨directory', name', t₁, hn', hfares₁, hsame halike₁⟩

theorem run (hapart : FilesApart s tasks) (schedule : List Nat) :
    Along s tasks ((Underway.called tasks s).effects schedule)
      ((Underway.called tasks s).run schedule) :=
  run_of_effects (called hapart) (fun _ _ _ _ ht h => h.advances hapart ht) schedule

end Along

/-! ## The end -/

/-- Operations whose files keep apart have all ended. -/
structure AtEnd (s : Site) (tasks : List Task) (done : List (Nat × Task)) (u : Underway) :
    Prop where
  along : Along s tasks done u
  tallies : Tallies tasks u
  accounts : Accounts tasks s u
  ended : HasEnded u

namespace AtEnd

theorem run (hapart : FilesApart s tasks) {schedule : List Nat}
    (hended : HasEnded ((called tasks s).run schedule)) :
    AtEnd s tasks ((called tasks s).effects schedule) ((called tasks s).run schedule) :=
  ⟨.run hapart schedule, .run tasks s schedule, .run tasks s schedule, hended⟩

/-- Each operation has ended as it would alone on the site that it found, and what stands at its
place is what it would leave there. -/
theorem ends (h : AtEnd s tasks done u) (htask : tasks[i]? = some task) :
    let alone := work task.direction task (viewOf s done i)
    u.stages[i]? = some (task, .ended alone.1) ∧
      u.site.files.entry? (placeOf s task) = Files.entry? alone.2.files (placeOf s task) ∧
      ∀ path, Files.entry? alone.2.files path = some .directory →
        u.site.files.entry? path = some .directory := by
  intro alone
  obtain ⟨stage, hstage⟩ := h.tallies.exists_stage htask
  obtain ⟨outcome, rfl⟩ := h.ended.exists_outcome hstage
  obtain ⟨directory, name, t, hn, hfares, halike⟩ := h.along.fares hstage
  have houtcome : outcome = alone.1 := hfares.outcome
  have hfiles : t.files = alone.2.files := hfares.files
  rw [hn.placeOf_eq, ← hfiles, ← houtcome]
  exact ⟨hstage, halike.place, halike.more⟩

theorem mem_iff (h : AtEnd s tasks done u) {a : Nat × Task} :
    a ∈ done ↔ tasks[a.1]? = some a.2 :=
  (h.along.effected.perm h.tallies h.ended).mem_iff.trans mem_placed_iff

end AtEnd

/-- In two orders the operations find sites on which each would end alike and leave the same
files. -/
def Agree (s : Site) (tasks : List Task) (done done' : List (Nat × Task)) : Prop :=
  ∀ (i : Nat) (task : Task), tasks[i]? = some task →
    (work task.direction task (viewOf s done i)).1 =
      (work task.direction task (viewOf s done' i)).1 ∧
      (work task.direction task (viewOf s done i)).2.files =
        (work task.direction task (viewOf s done' i)).2.files

namespace AtEnd

theorem outcomes_eq (h : AtEnd s tasks done u) (h' : AtEnd s tasks done' v)
    (hagree : Agree s tasks done done') : u.outcomes = v.outcomes := by
  refine List.map_injective_iff.2 (Option.some_injective _) ?_
  rw [h.ended.map_outcomes, h'.ended.map_outcomes]
  apply List.ext_getElem?
  intro i
  rw [List.getElem?_map, List.getElem?_map]
  cases htask : tasks[i]? with
  | none =>
    have hnone : ∀ {w}, Tallies tasks w → w.stages[i]? = none := by
      intro w ht
      rwa [← ht.tasks_eq, List.getElem?_map, Option.map_eq_none_iff] at htask
    rw [hnone h.tallies, hnone h'.tallies]
  | some task =>
    rw [(h.ends htask).1, (h'.ends htask).1, (hagree i task htask).1]

/-- Two runs leave the same files: at the place of a get what it leaves alone, and elsewhere the
directories that some operation makes and what was there. -/
theorem entry?_eq (h : AtEnd s tasks done u) (h' : AtEnd s tasks done' v)
    (hagree : Agree s tasks done done') (path : Path) :
    u.site.files.entry? path = v.site.files.entry? path := by
  by_cases hget : Written s tasks path
  · obtain ⟨task, hmem, -, rfl⟩ := hget
    obtain ⟨i, htask⟩ := List.mem_iff_getElem?.1 hmem
    rw [(h.ends htask).2.1, (h'.ends htask).2.1, (hagree i task htask).2]
  by_cases hmade : Made s done path
  · obtain ⟨a, ha, hdirectory⟩ := hmade
    have htask := h.mem_iff.1 ha
    rw [(h.ends htask).2.2 path hdirectory]
    rw [(hagree _ _ htask).2] at hdirectory
    exact ((h'.ends htask).2.2 path hdirectory).symm
  · have hmade' : ¬ Made s done' path := by
      rintro ⟨a, ha, hdirectory⟩
      have htask := h'.mem_iff.1 ha
      rw [← (hagree _ _ htask).2] at hdirectory
      exact hmade ⟨a, h.mem_iff.2 htask, hdirectory⟩
    rw [h.along.builds.entry?_eq hmade hget, h'.along.builds.entry?_eq hmade' hget]

end AtEnd

namespace AtEnd

theorem object?_site (h : AtEnd s tasks done u) (container object : Text) :
    u.site.store.object? container object =
      (s.withContainers (stored s done)).store.object? container object := by
  unfold Store.object?
  rw [h.along.containers]
  rfl

theorem objectOf_put (h : AtEnd s tasks done u) (hobjects : ObjectsApart tasks) {a : Nat × Task}
    (ha : a ∈ done) (hupload : a.2.direction = .upload) :
    (s.withContainers (stored s done)).objectOf a.2 =
      (work a.2.direction a.2 s).2.objectOf a.2 := by
  have haway := hobjects.away (fun _ => h.mem_iff.1) (h.mem_iff.1 ha)
  exact objectOf_stored haway h.along.effected.nodup.of_map ha hupload

/-- Two runs leave the same objects: those of the puts, and those that were there. -/
theorem object?_eq (h : AtEnd s tasks done u) (h' : AtEnd s tasks done' v)
    (hobjects : ObjectsApart tasks) (container object : Text) :
    u.site.store.object? container object = v.site.store.object? container object := by
  rw [h.object?_site, h'.object?_site]
  by_cases hput : ∃ a ∈ done, a.2.direction = .upload ∧
      container = a.2.container ∧ object = a.2.objectName
  · obtain ⟨a, ha, hupload, rfl, rfl⟩ := hput
    have ha' : a ∈ done' := h'.mem_iff.2 (h.mem_iff.1 ha)
    exact (h.objectOf_put hobjects ha hupload).trans (h'.objectOf_put hobjects ha' hupload).symm
  · have haway : ∀ a ∈ done, a.2.direction = .upload →
        ¬ (container = a.2.container ∧ object = a.2.objectName) :=
      fun a ha hupload hsame => hput ⟨a, ha, hupload, hsame⟩
    rw [object?_stored_of_away haway,
      object?_stored_of_away fun a ha => haway a (h.mem_iff.2 (h'.mem_iff.1 ha))]

end AtEnd

end Underway

end BulkTransfer
