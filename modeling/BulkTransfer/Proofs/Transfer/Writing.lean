import BulkTransfer.Proofs.Files.Plain
import BulkTransfer.Proofs.Transfer.Download
import BulkTransfer.Store.Site

/-!
# What a download leaves on disk

Names are kept as their bytes are read, so two objects whose names differ only in surrogates that
stand alone are written to one file.  Apart from that a download does what it says: each successful
task's file holds its object, every other file is as it was, and so is the store
(`download_writes`).  `Downloaded` is what every operation keeps: each written file holds the object
of a successful task of that place.
-/

namespace BulkTransfer

namespace Site

def objectOf (s : Site) (task : Task) : Option Bytes :=
  s.store.object? task.container task.objectName

theorem objectOf_congr {s t : Site} (h : s.store.containers = t.store.containers) (task : Task) :
    s.objectOf task = t.objectOf task := by
  rw [objectOf, objectOf, Store.object?, Store.object?, h]

/-- The file that a task's local path leads to holds the task's object. -/
def Holds (s : Site) (task : Task) : Prop :=
  ∃ content, s.objectOf task = some content ∧ s.files.read task.localPath = .ok content

theorem fetchFile_ok {task : Task} {s after : Site} (h : fetchFile task s = (.ok (), after)) :
    ∃ content files, s.objectOf task = some content ∧
      s.files.writeUnder task.localPath content = (.ok (), files) ∧ after = { s with files } := by
  rw [fetchFile] at h
  cases hf : s.store.failureOf task.objectName with
  | some error => simp [hf] at h
  | none =>
    cases ho : s.store.object? task.container task.objectName with
    | none => simp [hf, ho] at h
    | some content =>
      simp only [hf, ho] at h
      split at h
      · cases h
      · next files hwrite =>
        obtain ⟨-, rfl⟩ := Prod.mk.inj h
        exact ⟨content, files, ho, hwrite, rfl⟩

/-- A fetch that fails has at most made directories. -/
theorem fetchFile_error (touched : Path → Prop) {task : Task} {s after : Site} {error : Thrown}
    (h : fetchFile task s = (.error error, after)) :
    Files.Grows touched s.files after.files ∧ after.store = s.store := by
  rw [fetchFile] at h
  cases hf : s.store.failureOf task.objectName with
  | some error =>
    obtain ⟨-, rfl⟩ : _ ∧ s = after := by simpa [hf] using h
    exact ⟨.refl _ _, rfl⟩
  | none =>
    cases ho : s.store.object? task.container task.objectName with
    | none =>
      obtain ⟨-, rfl⟩ : _ ∧ s = after := by simpa [hf, ho] using h
      exact ⟨.refl _ _, rfl⟩
    | some content =>
      simp only [hf, ho] at h
      split at h
      · next e files hwrite =>
        obtain ⟨-, rfl⟩ := Prod.mk.inj h
        exact ⟨Files.grows_of_writeUnder_error touched hwrite, rfl⟩
      · cases h

end Site

namespace Transfer

/-! ## What operations keep -/

/-- Where the local path of a task stands on disk. -/
def placeOf (site : Site) (task : Task) : Path := site.files.standing task.localPath

/-- What downloads leave of a site: the objects of the store; at the place of each successful task a
file with the object of a successful task of that place, which the task's path leads to; and away
from these places the same files. -/
structure Downloaded (before now : Site) (results : List TransferResult) : Prop where
  containers : now.store.containers = before.store.containers
  plain : now.files.Plain
  reaches : ∀ r ∈ results, r.succeeded = true → ∃ p : Path, p.IsNormal ∧
    r.task.localPath = Path.text p ∧ now.files.Reaches p
  holds : ∀ r ∈ results, r.succeeded = true → ∃ s ∈ results, s.succeeded = true ∧
    placeOf before s.task = placeOf before r.task ∧
    ∃ content, before.objectOf s.task = some content ∧
      now.files.entry? (placeOf before r.task) = some (.file content)
  same : ∀ path, (∀ r ∈ results, r.succeeded = true → placeOf before r.task ≠ path) →
    ∀ content, now.files.entry? path = some (.file content) ↔
      before.files.entry? path = some (.file content)

namespace Downloaded

variable {before now next : Site} {results : List TransferResult} {r : TransferResult}

theorem refl (hcontainers : now.store.containers = before.store.containers)
    (hfiles : now.files = before.files) (hplain : before.files.Plain) :
    Downloaded before now [] where
  containers := hcontainers
  plain := hfiles ▸ hplain
  reaches := fun _ hr => absurd hr List.not_mem_nil
  holds := fun _ hr => absurd hr List.not_mem_nil
  same := fun path _ content => by rw [hfiles]

theorem congr (h : Downloaded before now results)
    (hcontainers : next.store.containers = now.store.containers) (hfiles : next.files = now.files) :
    Downloaded before next results where
  containers := hcontainers.trans h.containers
  plain := hfiles ▸ h.plain
  reaches := hfiles ▸ h.reaches
  holds := hfiles ▸ h.holds
  same := hfiles ▸ h.same

theorem of_mem_iff {others : List TransferResult} (h : Downloaded before now results)
    (hmem : ∀ r, r ∈ others ↔ r ∈ results) : Downloaded before now others := by
  refine ⟨h.containers, h.plain, ?_, ?_, ?_⟩
  all_goals simp only [hmem]
  · exact h.reaches
  · exact h.holds
  · exact h.same

/-- A task that failed, with at most new directories. -/
theorem fail (h : Downloaded before now results)
    (hcontainers : next.store.containers = now.store.containers)
    (hgrows : Files.Grows (fun _ => False) now.files next.files) (hfailed : r.succeeded = false) :
    Downloaded before next (results ++ [r]) := by
  have hold : ∀ s ∈ results ++ [r], s.succeeded = true → s ∈ results := by
    intro s hs hsucceeded
    rcases List.mem_append.1 hs with hs | hs
    · exact hs
    · rw [List.mem_singleton.1 hs, hfailed] at hsucceeded
      cases hsucceeded
  refine ⟨hcontainers.trans h.containers, hgrows.plain h.plain, fun s hs hss => ?_,
    fun s hs hss => ?_, fun path haway content => ?_⟩
  · obtain ⟨p, hp, hpath, hreaches⟩ := h.reaches s (hold s hs hss) hss
    exact ⟨p, hp, hpath, hreaches.mono hgrows⟩
  · obtain ⟨t, ht, hts, hplace, content, hobject, hfile⟩ := h.holds s (hold s hs hss) hss
    exact ⟨t, List.mem_append_left _ ht, hts, hplace, content, hobject,
      (hgrows.file id content).2 hfile⟩
  · have hsame := h.same path (fun s hs => haway s (List.mem_append_left _ hs)) content
    exact (hgrows.file id content).trans hsame

/-- A task that succeeded: its place holds its object, whatever was there. -/
theorem succeed (h : Downloaded before now results)
    (hcontainers : next.store.containers = now.store.containers) {p : Path} (hp : p.IsNormal)
    (hgrows : Files.Grows (· = p.map Text.stored) now.files next.files)
    (hreaches : next.files.Reaches p) (hpath : r.task.localPath = Path.text p)
    (hsucceeded : r.succeeded = true) {content : Bytes}
    (hobject : before.objectOf r.task = some content)
    (hfile : next.files.entry? (p.map Text.stored) = some (.file content)) :
    Downloaded before next (results ++ [r]) := by
  have hplace : placeOf before r.task = p.map Text.stored := by
    rw [placeOf, hpath, Files.standing_text _ hp]
  have hnew : r ∈ results ++ [r] := by simp
  refine ⟨hcontainers.trans h.containers, hgrows.plain h.plain, fun s hs hss => ?_,
    fun s hs hss => ?_, fun path haway content' => ?_⟩
  · rcases List.mem_append.1 hs with hs | hs
    · obtain ⟨q, hq, hpath', hreaches'⟩ := h.reaches s hs hss
      exact ⟨q, hq, hpath', hreaches'.mono hgrows⟩
    · rw [List.mem_singleton.1 hs]
      exact ⟨p, hp, hpath, hreaches⟩
  -- A place that was written before may be written over; then it holds the new task's object.
  · by_cases hover : placeOf before s.task = p.map Text.stored
    · exact ⟨r, hnew, hsucceeded, hplace.trans hover.symm, content, hobject, hover ▸ hfile⟩
    · rcases List.mem_append.1 hs with hs | hs
      · obtain ⟨t, ht, hts, hsame, kept, hkept, hentry⟩ := h.holds s hs hss
        exact ⟨t, List.mem_append_left _ ht, hts, hsame, kept, hkept,
          (hgrows.file hover kept).2 hentry⟩
      · rw [List.mem_singleton.1 hs] at hover
        exact absurd hplace hover
  · have haway' : ¬ path = p.map Text.stored :=
      fun e => haway r hnew hsucceeded (hplace.trans e.symm)
    have hsame := h.same path (fun s hs => haway s (List.mem_append_left _ hs)) content'
    exact (hgrows.file haway' content').trans hsame

theorem land {task : Task} (h : Downloaded before now results) {p : Path} (hp : p.IsNormal)
    (hpath : task.localPath = Path.text p) (duration : Time) :
    Downloaded before (Site.land .download task now).2
      (results ++ [.ofOutcome task (Site.land .download task now).1 duration]) := by
  have hland : Site.land .download task now = ((Site.fetchFile task now).1,
      { (Site.fetchFile task now).2 with store := (Site.fetchFile task now).2.store.leave }) := rfl
  rw [hland]
  rcases hf : Site.fetchFile task now with ⟨outcome, next⟩
  have hleave : ∀ more, Downloaded before next more →
      Downloaded before { next with store := next.store.leave } more :=
    fun more hmore => hmore.congr rfl rfl
  cases outcome with
  | error error =>
    obtain ⟨hgrows, hstore⟩ := Site.fetchFile_error (fun _ => False) hf
    exact hleave _ (h.fail (congrArg Store.containers hstore) hgrows rfl)
  | ok _ =>
    obtain ⟨content, files, hobject, hwrite, rfl⟩ := Site.fetchFile_ok hf
    rw [hpath] at hwrite
    obtain ⟨hgrows, hreaches, hfile⟩ := Files.of_writeUnder_ok h.plain hp hwrite
    have hcontainers : ({ now with files } : Site).store.containers = now.store.containers := rfl
    rw [Site.objectOf_congr h.containers] at hobject
    exact hleave _ (h.succeed hcontainers hp hgrows hreaches hpath rfl hobject hfile)

/-- Each successful task's file holds its object exactly when successful tasks of one place have the
same object. -/
theorem holds_iff (h : Downloaded before now results) :
    (∀ r ∈ results, r.succeeded = true → now.Holds r.task) ↔
      ∀ r ∈ results, ∀ s ∈ results, r.succeeded = true → s.succeeded = true →
        placeOf before r.task = placeOf before s.task →
        before.objectOf r.task = before.objectOf s.task := by
  -- What is read at a successful task's path is what stands at its place.
  have hread : ∀ r ∈ results, r.succeeded = true → ∀ content,
      now.files.entry? (placeOf before r.task) = some (.file content) →
      now.files.read r.task.localPath = .ok content := by
    intro r hr hrs content hfile
    obtain ⟨p, hp, hpath, hreaches⟩ := h.reaches r hr hrs
    rw [placeOf, hpath, Files.standing_text _ hp] at hfile
    rw [hpath]
    exact Files.read_of_reaches h.plain hp hreaches hfile
  constructor
  · intro hholds r hr s hs hrs hss hplace
    obtain ⟨-, -, -, -, content, -, hfile⟩ := h.holds r hr hrs
    have hone : ∀ t ∈ results, t.succeeded = true →
        now.files.entry? (placeOf before t.task) = some (.file content) →
        before.objectOf t.task = some content := by
      intro t ht hts hentry
      obtain ⟨found, hobject, hfound⟩ := hholds t ht hts
      rw [hread t ht hts content hentry] at hfound
      cases hfound
      rwa [Site.objectOf_congr h.containers] at hobject
    rw [hone r hr hrs hfile, hone s hs hss (hplace ▸ hfile)]
  · intro hsame r hr hrs
    obtain ⟨s, hs, hss, hplace, content, hobject, hfile⟩ := h.holds r hr hrs
    refine ⟨content, ?_, hread r hr hrs content hfile⟩
    rw [Site.objectOf_congr h.containers, hsame r hr s hs hrs hss hplace.symm, hobject]

end Downloaded

theorem keeps_downloaded (before : Site) (clock : Clock) {cwd : Path} {destination : Text}
    {collisions : OrderedMap Text Text} {tasks : List Task}
    (htasks : ∀ task ∈ tasks, ∃ p : Path, p.IsNormal ∧ task.localPath = Path.text p) :
    Pool.Keeps clock (tasks.map (downloadJob Site.transport cwd destination collisions))
      (fun now finished => Downloaded before now (finished.map Prod.snd))
      (fun _ _ r => r.succeeded = false)
      (fun _ flight => (∃ p : Path, p.IsNormal ∧ flight.task.localPath = Path.text p) ∧
        flight.finish = Site.land .download flight.task) where
  call := fun hjob h => by
    obtain ⟨task, -, rfl⟩ := getElem?_downloadJobs hjob
    cases hr : refusal? cwd destination collisions task with
    | some error => rwa [call_of_refused _ hr]
    | none =>
      rw [call_of_not_refused _ hr]
      exact h.congr rfl rfl
  throws := fun _ _ => rfl
  refused := fun _ _ _ => rfl
  waits := fun hjob hwaits now => by
    obtain ⟨task, htask, rfl⟩ := getElem?_downloadJobs hjob
    cases hr : refusal? cwd destination collisions task with
    | some error =>
      rw [call_of_refused _ hr] at hwaits
      cases hwaits
    | none =>
      rw [call_of_not_refused _ hr] at hwaits
      cases hwaits
      exact ⟨htasks task (List.mem_of_getElem? htask), rfl⟩
  ends_call := fun _ h => h
  ends_land := fun _ h => h
  conclude := fun hfailed h => by
    rw [List.map_append]
    exact h.fail rfl (.refl _ _) hfailed
  land := fun {due w finished flight} hflies h => by
    obtain ⟨⟨p, hp, hpath⟩, hfinish⟩ := hflies
    rw [hfinish, List.map_append]
    exact h.land hp hpath _

/-! ## Whole downloads -/

variable {τ : Type}

/-- A download that resolves leaves what downloads leave. -/
theorem downloaded_of_download {host : Host} {request : Request} {observer : Observer τ}
    {site : Site} {results : List TransferResult} (hcwd : site.files.cwd.IsNormal)
    (hplain : site.files.Plain)
    (h : (download host Site.transport request observer site).outcome = .ok results) :
    Downloaded site (download host Site.transport request observer site).world results := by
  obtain ⟨hfault, names, hlist⟩ := exists_names_of_download h
  obtain ⟨hout, hworld⟩ := download_of_listed observer hfault hlist
  have hkeeps : Pool.Keeps host.clock
      (listedJobs Site.transport site.files.cwd request names) _ _ _ :=
    keeps_downloaded site host.clock fun task htask => exists_path_of_mem_listedTasks hcwd htask
  have hstart : Downloaded site (listed Site.transport request site).world [] :=
    .refl rfl rfl hplain
  obtain ⟨found, finished, hfound, -, hget, hkept⟩ :=
    Dispatch.exists_finished observer hkeeps hstart (isFinite_of_fault?_eq_none hfault)
  obtain rfl : results = found := Except.ok.inj (h.symm.trans (hout.trans hfound))
  rw [hworld]
  refine hkept.of_mem_iff fun r => ?_
  rw [List.mem_iff_getElem?, List.mem_map]
  constructor
  · rintro ⟨i, hi⟩
    exact ⟨(i, r), (hget i r).1 hi, rfl⟩
  · rintro ⟨⟨i, _⟩, hmem, rfl⟩
    exact ⟨i, (hget i _).2 hmem⟩

/-- A download over a store in memory, among regular files and directories, that resolves: each
successful task's file holds the task's object exactly when successful tasks whose paths are stored
as one have the same object, so in any case when their paths are stored as they are.  Away from the
places of successful tasks the regular files are the same as before, and the store holds the same
objects. -/
theorem download_writes (host : Host) (request : Request) (observer : Observer τ) (site : Site)
    (results : List TransferResult) (hcwd : site.files.cwd.IsNormal) (hplain : site.files.Plain)
    (h : (download host Site.transport request observer site).outcome = .ok results) :
    let after := (download host Site.transport request observer site).world
    ((∀ r ∈ results, r.succeeded = true → after.Holds r.task) ↔
      ∀ r ∈ results, ∀ s ∈ results, r.succeeded = true → s.succeeded = true →
        placeOf site r.task = placeOf site s.task → site.objectOf r.task = site.objectOf s.task) ∧
    ((∀ r ∈ results, r.succeeded = true → Text.stored r.task.localPath = r.task.localPath) →
      ∀ r ∈ results, r.succeeded = true → after.Holds r.task) ∧
    (∀ path, (∀ r ∈ results, r.succeeded = true → placeOf site r.task ≠ path) →
      ∀ content, after.files.entry? path = some (.file content) ↔
        site.files.entry? path = some (.file content)) ∧
    after.store.containers = site.store.containers := by
  have hleft := downloaded_of_download hcwd hplain h
  refine ⟨hleft.holds_iff, fun hstored => hleft.holds_iff.2 fun r hr s hs hrs hss hplace => ?_,
    hleft.same, hleft.containers⟩
  rw [placeOf, placeOf, Files.standing, Files.standing, hstored r hr hrs, hstored s hs hss]
    at hplace
  obtain ⟨hfault, names, hlist⟩ := exists_names_of_download h
  have hr := admitted_of_succeeded hcwd hfault hlist h hr hrs
  have hs := admitted_of_succeeded hcwd hfault hlist h hs hss
  rw [hr.eq (pairwise_listedTasks _ _ _) hs hplace]

/-- Two objects that are named by different surrogates standing alone are both downloaded, to one
file, which holds only one of them. -/
theorem download_writes_one_file :
    let site : Site :=
      ⟨⟨.ofList [("c", .ofList [([0xD800], [1]), ([0xD801], [2])])], .empty, none, none, 1, .empty,
        [], 0, 0⟩, ⟨["work"], .empty⟩⟩
    let host : Host := ⟨2, [], .exact⟩
    let request : Request := ⟨"c", "/dst", some (.finite 1), none⟩
    let ran := download host Site.transport request .silent site
    site.files.cwd.IsNormal ∧ site.files.Plain ∧ ∃ results, ran.outcome = .ok results ∧
      ¬ ∀ r ∈ results, r.succeeded = true → ran.world.Holds r.task := by
  intro site host request ran
  have hcwd : site.files.cwd.IsNormal := by decide +kernel
  have hplain : site.files.Plain := by
    intro path entry hentry
    by_cases hpath : path = []
    · subst hpath
      exact .inl (Option.some.inj hentry).symm
    · rw [Files.entry?_of_ne_nil _ hpath] at hentry
      cases hentry
  let first : Task := ⟨"c", [0xD800], Path.text ["dst", [0xD800]], .download⟩
  let second : Task := ⟨"c", [0xD801], Path.text ["dst", [0xD801]], .download⟩
  have htasks : listedTasks ["work"] request [[0xD800], [0xD801]] = [first, second] :=
    List.mergeSort_of_pairwise (by decide +kernel)
  have hjobs : listedJobs Site.transport ["work"] request [[0xD800], [0xD801]] =
      [first, second].map (downloadJob Site.transport ["work"] request.directory
        (Collisions.find ["work"] [first, second])) := by
    rw [listedJobs, htasks]
  have hlist : (listed Site.transport request site).outcome = .ok [[0xD800], [0xD801]] := rfl
  have hrun : ran.outcome.toOption.map (List.map fun r => (r.task, r.succeeded)) =
      some [(first, true), (second, true)] := by
    have hfault : fault? request.container (concurrencyOf host request).1 request.keyPrefix =
        none := by decide +kernel
    have hout : ran.outcome = (Dispatch.run host.clock
        (listedJobs Site.transport ["work"] request [[0xD800], [0xD801]])
        (concurrencyOf host request).1 .silent
        (listed Site.transport request site).world).outcome :=
      (download_of_listed .silent hfault hlist).1
    rw [hout, hjobs]
    decide +kernel
  cases hout : ran.outcome with
  | error error => rw [hout] at hrun; cases hrun
  | ok results =>
    rw [hout] at hrun
    have hresults : results.map (fun r => (r.task, r.succeeded)) =
      [(first, true), (second, true)] := Option.some.inj hrun
    have hmem : ∀ task ∈ [first, second], ∃ r ∈ results, r.task = task ∧ r.succeeded = true := by
      intro task htask
      have hpair : (task, true) ∈ results.map fun r => (r.task, r.succeeded) := by
        rw [hresults]
        simpa using htask
      obtain ⟨r, hr, hown⟩ := List.mem_map.1 hpair
      exact ⟨r, hr, Prod.mk.inj hown⟩
    obtain ⟨r, hr, hrtask, hrs⟩ := hmem first (by simp)
    obtain ⟨s, hs, hstask, hss⟩ := hmem second (by simp)
    refine ⟨hcwd, hplain, results, rfl, fun hholds => ?_⟩
    have hsame := (download_writes host request .silent site results hcwd hplain hout).1.1 hholds
      r hr s hs hrs hss
    rw [hrtask, hstask] at hsame
    exact absurd (hsame (by decide +kernel)) (by decide +kernel)

end Transfer

end BulkTransfer
