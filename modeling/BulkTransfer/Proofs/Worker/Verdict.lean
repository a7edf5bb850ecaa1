import BulkTransfer.Proofs.Bucket.Putting
import BulkTransfer.Proofs.Dispatch.Telling
import BulkTransfer.Proofs.Naming.Container
import BulkTransfer.Worker

/-!
# The verdict of the worker

A run of the worker reads its settings, moves what they say, and shows the outcome.  All that can
fail on the way comes down to one status: it is 0 exactly when the environment is accepted, the move
resolves and each of its results is a success, and 1 otherwise (`run_verdict`).  A move that
resolves is told by a line with the counts of its results and a line for each failure; when the
environment or the key prefix is refused, nothing is sent and no file is changed.  For an upload all
this comes down to the replies of the service and the files alone (`status_upload_iff`).
-/

namespace BulkTransfer

/-! ## Results with a record of their failure -/

/-- Each result of a batch has a record of its failure exactly when it is no success. -/
theorem Dispatch.isNone_detail_of_run {σ τ : Type} {clock : Clock} {jobs : List (Job σ)}
    {observer : Observer τ} {world : σ} {concurrency : Number} {results : List TransferResult}
    (h : (run clock jobs concurrency observer world).outcome = .ok results) {r : TransferResult}
    (hr : r ∈ results) : r.detail.isNone = r.succeeded := by
  obtain ⟨job, -, hyields⟩ := exists_yields_of_run h hr
  exact hyields.isNone_detail

namespace Transfer

variable {σ τ : Type} {host : Host} {transport : Transport σ} {request : Request}
  {observer : Observer τ} {world : σ} {results : List TransferResult}

/-- The results of a move are those of a batch. -/
theorem exists_run_of_move (direction : Direction)
    (h : (move direction host transport request observer world).outcome = .ok results) :
    ∃ (jobs : List (Job σ)) (concurrency : Number) (started : σ),
      (Dispatch.run host.clock jobs concurrency observer started).outcome = .ok results := by
  cases direction with
  | upload =>
    rw [move, upload] at h
    obtain ⟨n, -, h⟩ := Ran.exists_of_andThen h
    obtain ⟨made, -, h⟩ := Ran.exists_of_andThen h
    obtain ⟨tasks, -, h⟩ := Ran.exists_of_andThen h
    exact ⟨_, n, _, h⟩
  | download =>
    rw [move, download] at h
    obtain ⟨n, -, h⟩ := Ran.exists_of_andThen h
    obtain ⟨tasks, -, h⟩ := Ran.exists_of_andThen h
    exact ⟨_, n, _, h⟩

theorem completes_of_ok {direction : Direction}
    (h : (move direction host transport request observer world).outcome = .ok results) :
    Completes transport request world direction
      (move direction host transport request observer world) :=
  completes_of_no_error direction fun ⟨_, herror⟩ => by
    rw [h] at herror
    cases herror

end Transfer

namespace Outcome

variable {results : List TransferResult}

theorem failureCount_eq_zero_iff :
    (ofResults results).failureCount = 0 ↔ ∀ r ∈ results, r.succeeded = true := by
  simp [ofResults]

theorem failureCount_eq (results : List TransferResult) :
    (ofResults results).failureCount = results.countP fun r => !r.succeeded := by
  rw [List.countP_eq_length_filter]
  rfl

theorem successCount_eq (results : List TransferResult) :
    (ofResults results).successCount = results.countP (·.succeeded) := by
  have hcounts := counts_ofResults results
  have hlength : results.length =
      results.countP (·.succeeded) + results.countP fun r => decide ¬ r.succeeded = true :=
    List.length_eq_countP_add_countP _
  simp only [Bool.not_eq_true, Bool.decide_eq_false] at hlength
  rw [failureCount_eq] at hcounts
  omega

/-- The remark about failures that are worth repeating. -/
def retryableNote (count : Nat) : Text :=
  if count = 0 then [] else " (" ++ Text.ofNat count ++ " retryable)"

/-- The summary gives the counts of the results. -/
theorem summary_ofResults (results : List TransferResult) :
    (ofResults results).summary =
      Text.ofNat results.length ++ " tasks: " ++
        Text.ofNat (results.countP (·.succeeded)) ++ " succeeded, " ++
        Text.ofNat (results.countP fun r => !r.succeeded) ++ " failed" ++
        retryableNote (results.countP fun r => !r.succeeded && r.isRetryable) := by
  have hretryable : (ofResults results).retryableTasks.length =
      results.countP fun r => !r.succeeded && r.isRetryable := by
    simp only [ofResults, List.length_map, List.filter_filter, List.countP_eq_length_filter,
      Bool.and_comm]
  rw [summary, successCount_eq, failureCount_eq, ← hretryable, retryableNote]
  simp only [List.isEmpty_iff, List.length_eq_zero_iff]
  rfl

end Outcome

/-! ## Accepted environments -/

theorem Settings.exists_of_bind {α β : Type} {x : Except SettingsFault α}
    {next : α → Except SettingsFault β} {b : β} (h : x >>= next = .ok b) :
    ∃ a, x = .ok a ∧ next a = .ok b := by
  cases x with
  | error fault => cases h
  | ok a => exact ⟨a, rfl, h⟩

/-- The container of an accepted environment breaks no rule. -/
theorem Settings.fault?_container {env : Environment} {settings : Settings}
    (h : ofEnvironment env = .ok settings) : ContainerName.fault? settings.container = none := by
  rw [ofEnvironment] at h
  obtain ⟨word, -, h⟩ := exists_of_bind h
  obtain ⟨direction, -, h⟩ := exists_of_bind h
  obtain ⟨name, -, h⟩ := exists_of_bind h
  obtain ⟨container, hcontainer, h⟩ := exists_of_bind h
  obtain ⟨directory, -, h⟩ := exists_of_bind h
  obtain ⟨switch, -, h⟩ := exists_of_bind h
  cases h
  rw [containerOf] at hcontainer
  split at hcontainer
  · cases hcontainer
  · next hfault =>
    cases hcontainer
    exact hfault

theorem ContainerName.isEmpty_trim {name : Text} (h : fault? name = none) :
    (Text.trim name).isEmpty = false := by
  refine Bool.eq_false_iff.2 fun hempty => ?_
  have hclean : Text.clean name = [] := by
    rw [Text.clean, List.isEmpty_iff.1 hempty]
    rfl
  rw [fault?, hclean, if_pos List.isEmpty_nil] at h
  cases h

namespace Worker

variable {host : Host} {s : Session} {settings : Settings} {results : List TransferResult}

/-! ## The move of a run -/

/-- The move that the settings ask for. -/
def moved (host : Host) (settings : Settings) (s : Session) : Ran Session (List TransferResult) :=
  Transfer.move settings.direction host Session.transport
    (request settings (Concurrency.ofHost host).1) Meter.observer s

theorem run_of_refused {fault : SettingsFault}
    (h : Settings.ofEnvironment host.environment = .error fault) :
    (run host s).status = failure ∧ (run host s).session = s := by
  simp only [run, attempt, h, Ran.throw]
  exact ⟨trivial, trivial⟩

section

variable (h : Settings.ofEnvironment host.environment = .ok settings)

include h

theorem attempt_outcome : (attempt host s).outcome =
    (moved host settings s).outcome.map fun results =>
      (settings, Outcome.ofResults results) := by
  have hmoved : (attempt host s).outcome = ((moved host settings s).outcome.map
      Outcome.ofResults).map fun outcome => (settings, outcome) := by
    rw [attempt, h]
    rfl
  rw [hmoved]
  cases (moved host settings s).outcome <;> rfl

theorem attempt_world : (attempt host s).world = (moved host settings s).world := by
  rw [attempt, h]
  rfl

/-- A run whose move throws. -/
theorem run_of_error {error : Thrown} (hmoved : (moved host settings s).outcome = .error error) :
    run host s = ⟨failure, (moved host settings s).world,
      openingLine :: (attempt host s).events ++ fatalLines error⟩ := by
  have hattempt := attempt_outcome (s := s) h
  rw [hmoved] at hattempt
  simp only [run, hattempt, Except.map, attempt_world h]

/-- A run whose move resolves. -/
theorem run_of_ok (hmoved : (moved host settings s).outcome = .ok results) :
    run host s =
      { status := if (Outcome.ofResults results).failureCount = 0 then success else failure
        session := (moved host settings s).world
        events := openingLine :: (attempt host s).events ++
          [summaryLine settings.direction (Outcome.ofResults results)] ++
          (Outcome.ofResults results).failures.map failureLine } := by
  have hattempt := attempt_outcome (s := s) h
  rw [hmoved] at hattempt
  simp only [run, hattempt, Except.map, attempt_world h]

end

/-! ## The lines about the outcome -/

/-- The line about a failure: its object, and the kind and the message of what went wrong. -/
def Told (r : TransferResult) (e : Event) : Prop :=
  ∃ detail, r.detail = some detail ∧
    e = .error ("  " ++ r.task.objectName ++ ": [" ++ detail.kind ++ "] " ++ detail.message)

theorem told_failureLine {r : TransferResult} (hrecord : r.detail.isNone = r.succeeded)
    (hfailed : r.succeeded = false) : Told r (failureLine r) := by
  cases hdetail : r.detail with
  | none =>
    rw [hdetail, hfailed] at hrecord
    cases hrecord
  | some detail =>
    refine ⟨detail, hdetail, ?_⟩
    rw [failureLine, hdetail]
    rfl

theorem forall₂_told_failures (hrecords : ∀ r ∈ results, r.detail.isNone = r.succeeded) :
    List.Forall₂ Told (results.filter fun r => !r.succeeded)
      ((Outcome.ofResults results).failures.map failureLine) := by
  refine List.forall₂_map_right_iff.2 (List.forall₂_same.2 fun r hr => ?_)
  rw [List.mem_filter] at hr
  exact told_failureLine (hrecords r hr.1) (by simpa using hr.2)

/-! ## The verdict -/

/-- A run ends with status 0 exactly when its environment is accepted, its move resolves and each
result is a success, and with status 1 otherwise.  The outcome of a move that resolves is told last:
one line has its counts, and after it each failure has a line, in the order of the results.  When
the environment or the key prefix is refused, the session stays as it is: nothing is sent, and no
file is changed. -/
structure Verdict (host : Host) (s : Session) (finish : Finish) : Prop where
  succeeds_iff : finish.status = 0 ↔ ∃ settings results,
    Settings.ofEnvironment host.environment = .ok settings ∧
      (moved host settings s).outcome = .ok results ∧ ∀ r ∈ results, r.succeeded = true
  fails : finish.status ≠ 0 → finish.status = 1
  session_eq : ∀ settings, Settings.ofEnvironment host.environment = .ok settings →
    finish.session = (moved host settings s).world
  told : ∀ settings results, Settings.ofEnvironment host.environment = .ok settings →
    (moved host settings s).outcome = .ok results →
    Transfer.Completes Session.transport (request settings (Concurrency.ofHost host).1) s
      settings.direction (moved host settings s) ∧
    ∃ before lines,
      finish.events = before ++
        [.log ("Batch " ++ settings.direction.word ++ " complete: " ++
          (Text.ofNat results.length ++ " tasks: " ++
            Text.ofNat (results.countP (·.succeeded)) ++ " succeeded, " ++
            Text.ofNat (results.countP fun r => !r.succeeded) ++ " failed" ++
            Outcome.retryableNote (results.countP fun r => !r.succeeded && r.isRetryable)))] ++
        lines ∧
      List.Forall₂ Told (results.filter fun r => !r.succeeded) lines
  refused : ((∃ fault, Settings.ofEnvironment host.environment = .error fault) ∨
      ∃ settings keys fault, Settings.ofEnvironment host.environment = .ok settings ∧
        settings.keyPrefix = some keys ∧ KeyPrefix.fault? keys = some fault) →
    finish.status = 1 ∧ finish.session = s

theorem status_run (host : Host) (s : Session) :
    (run host s).status = success ∨ (run host s).status = failure := by
  rw [run]
  cases (attempt host s).outcome with
  | error error => exact .inr rfl
  | ok outcome =>
    dsimp only
    split
    · exact .inl rfl
    · exact .inr rfl

theorem status_run_eq_zero_iff (host : Host) (s : Session) :
    (run host s).status = 0 ↔ ∃ settings results,
      Settings.ofEnvironment host.environment = .ok settings ∧
        (moved host settings s).outcome = .ok results ∧ ∀ r ∈ results, r.succeeded = true := by
  constructor
  · intro hstatus
    cases h : Settings.ofEnvironment host.environment with
    | error fault =>
      rw [(run_of_refused h).1] at hstatus
      cases hstatus
    | ok settings =>
      cases hmoved : (moved host settings s).outcome with
      | error error =>
        rw [run_of_error h hmoved] at hstatus
        cases hstatus
      | ok results =>
        refine ⟨settings, results, rfl, hmoved, Outcome.failureCount_eq_zero_iff.1 ?_⟩
        rw [run_of_ok h hmoved] at hstatus
        by_contra hcount
        rw [if_neg hcount] at hstatus
        cases hstatus
  · rintro ⟨settings, results, h, hmoved, hall⟩
    rw [run_of_ok h hmoved]
    exact if_pos (Outcome.failureCount_eq_zero_iff.2 hall)

/-- A key prefix that breaks a rule is refused before anything is done. -/
theorem run_of_keyPrefix {keys : Text} {fault : KeyPrefixFault}
    (h : Settings.ofEnvironment host.environment = .ok settings)
    (hkeys : settings.keyPrefix = some keys) (hfault : KeyPrefix.fault? keys = some fault) :
    (run host s).status = failure ∧ (run host s).session = s := by
  have hne : keys ≠ [] := by
    rintro rfl
    cases hfault
  obtain ⟨error, -, hmoved⟩ := Transfer.refused_of_misconfigured settings.direction
    Session.transport s (.keyPrefix hkeys hne hfault :
      Transfer.Misconfigured host (request settings (Concurrency.ofHost host).1)) Meter.observer
  have herror : moved host settings s = _ := hmoved
  rw [run_of_error h (congrArg Ran.outcome herror)]
  exact ⟨rfl, congrArg Ran.world herror⟩

/-- The verdict of every run, whatever the environment, the files and the replies of the service. -/
theorem run_verdict (host : Host) (s : Session) : Verdict host s (run host s) where
  succeeds_iff := status_run_eq_zero_iff host s
  fails := fun hne => (status_run host s).resolve_left hne
  session_eq := fun settings h => by
    cases hmoved : (moved host settings s).outcome with
    | error error => rw [run_of_error h hmoved]
    | ok results => rw [run_of_ok h hmoved]
  told := fun settings results h hmoved => by
    obtain ⟨jobs, concurrency, started, hrun⟩ :=
      Transfer.exists_run_of_move settings.direction hmoved
    refine ⟨Transfer.completes_of_ok hmoved, openingLine :: (attempt host s).events,
      (Outcome.ofResults results).failures.map failureLine, ?_,
      forall₂_told_failures fun r => Dispatch.isNone_detail_of_run hrun⟩
    rw [run_of_ok h hmoved, summaryLine, Outcome.summary_ofResults]
  refused := fun hrefused => by
    rcases hrefused with ⟨fault, h⟩ | ⟨settings, keys, fault, h, hkeys, hfault⟩
    · exact run_of_refused h
    · exact run_of_keyPrefix h hkeys hfault

/-! ## Uploads -/

/-- The container of a run has a name that every console prints, so that it makes no difference on
which one the run writes. -/
theorem ensureBucketOn_settings (h : Settings.ofEnvironment host.environment = .ok settings)
    (console : Console) :
    Session.ensureBucketOn console settings.container s =
      Session.ensureBucket settings.container s := by
  obtain ⟨-, hproper⟩ := ContainerName.fault?_eq_none_iff_and.1 (Settings.fault?_container h)
  refine Session.ensureBucketOn_eq (fun hmem => ?_) console s
  have hunits : Text.unit '%' ∉ ContainerName.lettersAndDigits ∧
      Text.unit '%' ≠ ContainerName.period ∧ Text.unit '%' ≠ ContainerName.hyphen := by
    decide +kernel
  rcases hproper.units _ hmem with hunit | hunit | hunit
  · exact hunits.1 hunit
  · exact hunits.2.1 hunit
  · exact hunits.2.2 hunit

section

variable (h : Settings.ofEnvironment host.environment = .ok settings)
  (hfinite : (Number.ofInt (Concurrency.ofHost host).1).isFinite = true)

include h hfinite

/-- Nothing but the key prefix of an accepted environment can be refused. -/
theorem fault?_request :
    let asked := request settings (Concurrency.ofHost host).1
    Transfer.fault? asked.container (Transfer.concurrencyOf host asked).1 asked.keyPrefix =
      (settings.keyPrefix.bind KeyPrefix.fault?).map .keyPrefix := by
  intro asked
  have hname : (Text.trim asked.container).isEmpty = false :=
    ContainerName.isEmpty_trim (Settings.fault?_container h)
  have hconcurrency : (Transfer.concurrencyOf host asked).1.isFinite = true := hfinite
  rw [Transfer.fault?, hname, hconcurrency, if_neg Bool.false_ne_true, if_neg (by decide)]
  rfl

/-- An upload that resolves has its container, and a directory that can be enumerated. -/
theorem exists_tasks_of_moved (hupload : settings.direction = .upload)
    (hmoved : (moved host settings s).outcome = .ok results) :
    let asked := request settings (Concurrency.ofHost host).1
    settings.keyPrefix.bind KeyPrefix.fault? = none ∧
      (Transfer.prepared Session.transport asked s).outcome = .ok () ∧
      ∃ tasks, (Transfer.enumerated Session.transport asked s .upload).outcome = .ok tasks := by
  intro asked
  rw [moved, hupload] at hmoved
  have hcontract := Transfer.uploadContract host Session.transport asked Meter.observer s
  have hresolves : ¬ ∃ error,
      (Transfer.upload host Session.transport asked Meter.observer s).outcome = .error error :=
    fun ⟨error, herror⟩ => by
      rw [Transfer.move] at hmoved
      rw [hmoved] at herror
      cases herror
  obtain ⟨tasks, -, htasks, -⟩ := hcontract.completes hresolves
  have hrejects := mt hcontract.rejects_iff.2 hresolves
  refine ⟨?_, ?_, tasks, htasks⟩
  · cases hkeys : settings.keyPrefix.bind KeyPrefix.fault? with
    | none => rfl
    | some fault =>
      have hrefused := fault?_request h hfinite
      rw [hkeys] at hrefused
      exact absurd (.inl (Transfer.exists_fault?_iff.1 ⟨_, hrefused⟩)) hrejects
  · cases hprepared : (Transfer.prepared Session.transport asked s).outcome with
    | ok made => rfl
    | error error => exact absurd (.inr (.inl ⟨error, hprepared⟩)) hrejects

/-- A run that uploads ends with status 0 exactly when its key prefix is accepted, its container is
made or there, its directory can be enumerated, and the put of each of its tasks succeeds right
after that.  So the status depends neither on the clock nor on the number of workers. -/
theorem status_upload_iff (hupload : settings.direction = .upload) :
    let made := Session.ensureBucket settings.container s
    (run host s).status = 0 ↔ settings.keyPrefix.bind KeyPrefix.fault? = none ∧
      made.outcome = .ok () ∧
      ∃ tasks, (Enumeration.ofDirectory made.world.files settings.container settings.localDirectory
        settings.keyPrefix made.world).outcome = .ok tasks ∧
        ∀ task ∈ tasks, (Session.put task made.world).1 = .ok () := by
  intro made
  have hfault := fault?_request h hfinite
  rw [status_run_eq_zero_iff]
  constructor
  · rintro ⟨settings', results, h', hmoved, hall⟩
    obtain rfl : settings = settings' := Except.ok.inj (h.symm.trans h')
    obtain ⟨hkeys, hmade, tasks, htasks⟩ := exists_tasks_of_moved h hfinite hupload hmoved
    refine ⟨hkeys, hmade, tasks, htasks, fun task htask => ?_⟩
    rw [hkeys] at hfault
    obtain ⟨found, hfound, hmap, hputs⟩ :=
      Transfer.upload_puts Meter.observer hfault hmade htasks
    rw [moved, hupload] at hmoved
    obtain rfl : results = found := Except.ok.inj (hmoved.symm.trans hfound)
    rw [← hmap] at htask
    obtain ⟨r, hr, rfl⟩ := List.mem_map.1 htask
    exact (hputs r hr).succeeded_iff.1 (hall r hr)
  · rintro ⟨hkeys, hmade, tasks, htasks, hall⟩
    rw [hkeys] at hfault
    obtain ⟨results, hresults, hmap, hputs⟩ :=
      Transfer.upload_puts Meter.observer hfault hmade htasks
    refine ⟨settings, results, h, ?_, fun r hr => (hputs r hr).succeeded_iff.2 (hall _ ?_)⟩
    · rw [moved, hupload]
      exact hresults
    · exact hmap ▸ List.mem_map_of_mem hr

end

end Worker

end BulkTransfer
