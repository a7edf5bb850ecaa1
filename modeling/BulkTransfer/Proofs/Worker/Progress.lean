import BulkTransfer.Proofs.Dispatch.Telling
import BulkTransfer.Proofs.Worker.Tenths
import BulkTransfer.Proofs.Worker.Verdict
import BulkTransfer.Worker.Rehearsal

/-!
# The progress that the worker shows

A batch that is watched by the meter shows the sightings of its tasks, in which a line stands for
each report whose count begins a tenth and nothing for the others (`run_metered`).  No other line of
a run of the worker shows progress, so its progress lines are those of its batch
(`run_marks_tenths`).
-/

namespace BulkTransfer

namespace Meter

/-! ## Progress lines -/

/-- The line about a count: the count, the number of all tasks, and the tenth in percent. -/
def lineAt (total completed : Nat) : Event :=
  .log ("Progress: " ++ Text.ofNat completed ++ "/" ++ Text.ofNat total ++ " objects (" ++
    Text.ofNat (decile total completed * 10) ++ "%)")

theorem line_eq_lineAt (completed total : Nat) : line completed total = lineAt total completed := by
  rw [line, lineAt, decile_eq_tenth]

/-- Whether an event is a console line that shows progress. -/
def isLine : Event → Bool
  | .console .log text => ("Progress: " : Text).isPrefixOf text
  | _ => false

/-- The progress lines among events. -/
def lines (events : List Event) : List Event := events.filter isLine

theorem lines_append (events more : List Event) :
    lines (events ++ more) = lines events ++ lines more :=
  List.filter_append _ _

theorem isLine_lineAt (total completed : Nat) : isLine (lineAt total completed) = true := by
  refine List.isPrefixOf_iff_prefix.2 ?_
  simp only [List.append_assoc]
  exact List.prefix_append _ _

theorem lines_warnings (texts : List Text) : lines (texts.map Event.warn) = [] :=
  List.filter_eq_nil_iff.2 fun _ h => by
    obtain ⟨text, -, rfl⟩ := List.mem_map.1 h
    exact Bool.false_ne_true

end Meter

/-! ## Sightings with the meter -/

namespace Sighting

/-- The events by which a sighting shows with the meter: a report shows the line of its count, if
the count is one of those given. -/
def metered (counts : List Nat) (total : Nat) (s : Sighting) : List Event :=
  match s.sign with
  | .report _ => if s.completed ∈ counts then [Meter.lineAt total s.completed] else []
  | _ => s.events (fun _ => none) total

variable {total : Nat} {trace : List Sighting}

theorem flatMap_shown_events {s : Sighting} (h : ∀ c, s.count? = some c → 0 < c ∧ c ≤ total) :
    (s.events (fun _ => none) total).flatMap Meter.shown = s.metered (Meter.marks total) total := by
  rw [events, metered]
  cases hsign : s.sign with
  | start => simp [events, hsign, Meter.shown]
  | failure message => simp [events, hsign, Meter.shown, Event.error]
  | report succeeded =>
    obtain ⟨hpos, hle⟩ := h s.completed (by rw [count?, hsign])
    simp [Meter.shown, Meter.mem_marks_iff, Meter.line_eq_lineAt, hpos, hle]

/-- In a trace whose reports count up, the lines stand for the reports whose counts begin a
tenth. -/
theorem flatMap_shown_trace (h : trace.filterMap count? = List.range' 1 total) :
    (trace.flatMap (events (fun _ => none) total)).flatMap Meter.shown =
      trace.flatMap (metered (Meter.marks total) total) := by
  rw [List.flatMap_assoc]
  refine List.flatMap_congr fun s hs => flatMap_shown_events fun c hc => ?_
  have hrange : c ∈ List.range' 1 total := h ▸ List.mem_filterMap.2 ⟨s, hs, hc⟩
  rw [List.mem_range'_1] at hrange
  omega

theorem lines_metered (counts : List Nat) (s : Sighting) :
    Meter.lines (s.metered counts total) =
      (s.count?.toList.filter (· ∈ counts)).map (Meter.lineAt total) := by
  rw [metered, count?]
  cases hsign : s.sign with
  | start => simp [events, hsign, Meter.lines, Meter.isLine]
  | failure message => simp [events, hsign, Meter.lines, Meter.isLine, Event.error]
  | report succeeded =>
    by_cases hcount : s.completed ∈ counts <;>
      simp [Meter.lines, hcount, Meter.isLine_lineAt]

/-- The progress lines of a trace are those of the given counts that it reports. -/
theorem lines_flatMap_metered (counts : List Nat) (trace : List Sighting) :
    Meter.lines (trace.flatMap (metered counts total)) =
      ((trace.filterMap count?).filter (· ∈ counts)).map (Meter.lineAt total) := by
  induction trace with
  | nil => rfl
  | cons s trace ih =>
    have hcounts : (s :: trace).filterMap count? = s.count?.toList ++ trace.filterMap count? := by
      rw [List.filterMap_cons]
      cases s.count? <;> rfl
    rw [List.flatMap_cons, Meter.lines_append, lines_metered, ih, hcounts, List.filter_append,
      List.map_append]

end Sighting

namespace Meter

theorem filter_mem_marks (total : Nat) :
    (List.range' 1 total).filter (· ∈ marks total) = marks total := by
  refine List.filter_congr fun c hc => Bool.eq_iff_iff.2 ?_
  rw [List.mem_range'_1] at hc
  rw [decide_eq_true_iff, decide_eq_true_iff, mem_marks_iff]
  exact ⟨fun h => h.2.2, fun h => ⟨by omega, by omega, h⟩⟩

/-! ## Batches -/

variable {σ : Type} {jobs : List (Job σ)}

/-- A batch with the meter shows the sightings of its tasks. -/
theorem run_metered (clock : Clock) (hjobs : jobs ≠ []) (q : Rat) (world : σ) :
    ∃ results trace time, ∃ warning : Option Text,
      let ran := Dispatch.run clock jobs (.finite q) observer world
      ran.outcome = .ok results ∧ results.length = jobs.length ∧ Chronicle jobs results trace ∧
      ran.events = warning.toList.map Event.warn ++
        [Dispatch.openingLine jobs.length (Dispatch.workers q jobs.length)] ++
        trace.flatMap (Sighting.metered (marks jobs.length) jobs.length) ++
        [Dispatch.closingLine time results] := by
  obtain ⟨results, trace, time, warning, hout, hlength, hchronicle, hevents⟩ :=
    Dispatch.exists_chronicle clock hjobs q world
  refine ⟨results, trace, time, warning, ?_, hlength, hchronicle, ?_⟩
  · rw [Dispatch.run_retell retells_observer]
    exact hout
  · rw [Dispatch.run_retell retells_observer]
    simp only [hevents, List.flatMap_append, retells_observer.flatMap_warnings,
      Sighting.flatMap_shown_trace hchronicle.counts]
    rfl

/-- A run that gives results shows the progress lines of their number, and one that throws shows
none. -/
def IsMetered (ran : Ran σ (List TransferResult)) : Prop :=
  lines ran.events = match ran.outcome with
    | .ok results => (marks results.length).map (lineAt results.length)
    | .error _ => []

theorem isMetered_run (clock : Clock) (jobs : List (Job σ)) (concurrency : Number) (world : σ) :
    IsMetered (Dispatch.run clock jobs concurrency observer world).toRan := by
  by_cases hjobs : jobs = []
  · subst hjobs
    rfl
  cases concurrency with
  | nan => rw [Dispatch.run_of_not_finite clock jobs observer world hjobs rfl]; rfl
  | infinite negative => rw [Dispatch.run_of_not_finite clock jobs observer world hjobs rfl]; rfl
  | finite q =>
    obtain ⟨results, trace, time, warning, hout, hlength, hchronicle, hevents⟩ :=
      run_metered clock hjobs q world
    have hopening : ∀ total workers, lines [Dispatch.openingLine total workers] = [] :=
      fun _ _ => rfl
    have hclosing : lines [Dispatch.closingLine time results] = [] := rfl
    rw [IsMetered, hout, hevents]
    show _ = (marks results.length).map (lineAt results.length)
    rw [hlength]
    simp only [lines_append, lines_warnings, hopening, hclosing, List.nil_append, List.append_nil]
    rw [Sighting.lines_flatMap_metered, hchronicle.counts, filter_mem_marks]

/-! ## Moves -/

section

variable {α : Type} {host : Host} {transport : Transport σ} {request : Request} {world : σ}

theorem IsMetered.after {ran : Ran σ (List TransferResult)} (h : IsMetered ran)
    {events : List Event} (hevents : lines events = []) : IsMetered (ran.after events) := by
  have hlines : lines (ran.after events).events = lines ran.events := by
    rw [Ran.after, lines_append, hevents, List.nil_append]
  exact hlines.trans h

/-- What comes before the batch of a move shows no progress. -/
theorem isMetered_andThen {r : Ran σ α} {next : α → σ → Ran σ (List TransferResult)}
    (hr : lines r.events = []) (hnext : ∀ a w, IsMetered (next a w)) :
    IsMetered (r.andThen next) := by
  rw [Ran.andThen]
  cases r.outcome with
  | error error => exact hr
  | ok a => exact (hnext a r.world).after hr

theorem lines_check (host : Host) (request : Request) (world : σ) :
    lines (Transfer.check host request world).events = [] := by
  have hwarnings : lines (Transfer.concurrencyOf host request).2 = [] :=
    List.filter_eq_nil_iff.2 fun e he => by
      obtain ⟨text, rfl⟩ := Transfer.warn_of_mem_concurrencyOf he
      exact Bool.false_ne_true
  cases hfault : Transfer.fault? request.container (Transfer.concurrencyOf host request).1
      request.keyPrefix with
  | none =>
    rw [Transfer.check_of_fault?_eq_none host hfault]
    exact hwarnings
  | some fault =>
    rw [Transfer.check_of_fault?_eq_some hfault]
    exact hwarnings

theorem lines_ofDirectory (f : Files) (container directory : Text) (keyPrefix : Option Text)
    (world : σ) :
    lines (Enumeration.ofDirectory f container directory keyPrefix world).events = [] := by
  rw [Enumeration.ofDirectory]
  split
  · rfl
  · refine List.filter_eq_nil_iff.2 fun e he => ?_
    obtain ⟨entry, -, hwarning⟩ := List.mem_filterMap.1 he
    rw [Enumeration.Source.warning?] at hwarning
    split at hwarning
    · cases hwarning
    · cases hwarning
      exact Bool.false_ne_true

variable (hensure : ∀ container w, lines (transport.ensureContainer container w).events = [])
  (hlist : ∀ container start w, lines (transport.list container start w).events = [])

include hlist in
theorem lines_ofContainer (cwd : Path) (container directory : Text) (keyPrefix : Option Text)
    (world : σ) :
    lines (Enumeration.ofContainer transport.list cwd container directory keyPrefix world).events =
      [] := by
  rw [Enumeration.ofContainer]
  split
  · exact hlist _ _ _
  · exact hlist _ _ _

include hensure hlist in
/-- A move whose storage shows no progress itself shows that of its batch. -/
theorem isMetered_move (direction : Direction) (host : Host) (request : Request) (world : σ) :
    IsMetered (Transfer.move direction host transport request observer world) := by
  cases direction with
  | upload =>
    refine isMetered_andThen (lines_check host request world) fun concurrency w => ?_
    refine isMetered_andThen (hensure _ w) fun _ w => ?_
    refine isMetered_andThen (lines_ofDirectory _ _ _ _ w) fun tasks w => ?_
    exact (isMetered_run host.clock _ concurrency w).after rfl
  | download =>
    refine isMetered_andThen (lines_check host request world) fun concurrency w => ?_
    refine isMetered_andThen (lines_ofContainer hlist _ _ _ _ w) fun tasks w => ?_
    exact (isMetered_run host.clock _ concurrency w).after rfl

end

theorem lines_ensureBucket (bucket : Text) (s : Session) :
    lines (Session.ensureBucket bucket s).events = [] := by
  rw [Session.ensureBucket, Session.ensureBucketOn]
  split
  · rfl
  · split
    · rw [Session.createBucketOn]
      split
      · rfl
      · split <;> rfl
    · rfl

end Meter

/-! ## Runs of the worker -/

namespace Worker

open Meter

variable {host : Host} {s : Session} {settings : Settings}

theorem isMetered_moved (host : Host) (settings : Settings) (s : Session) :
    IsMetered (moved host settings s) :=
  isMetered_move lines_ensureBucket (fun _ _ _ => rfl) settings.direction host _ s

/-- Only the move of a run shows progress. -/
theorem lines_run (h : Settings.ofEnvironment host.environment = .ok settings) :
    lines (run host s).events = lines (moved host settings s).events := by
  have hattempt : lines (attempt host s).events = lines (moved host settings s).events := by
    have hevents : (attempt host s).events =
        (Concurrency.ofHost host).2.toList.map Event.warn ++
          settingsLines settings (Concurrency.ofHost host).1 ++ (moved host settings s).events := by
      rw [attempt, h]
      rfl
    have hsettings : lines (settingsLines settings (Concurrency.ofHost host).1) = [] := rfl
    rw [hevents, lines_append, lines_append, lines_warnings, hsettings]
    rfl
  have hopening : lines [openingLine] = [] := rfl
  cases hmoved : (moved host settings s).outcome with
  | error error =>
    have hfatal : lines (fatalLines error) = [] := by
      rw [fatalLines]
      split <;> rfl
    rw [run_of_error h hmoved, ← List.singleton_append, lines_append, lines_append, hopening,
      hattempt, hfatal, List.nil_append, List.append_nil]
  | ok results =>
    have hsummary : lines [summaryLine settings.direction (Outcome.ofResults results)] = [] := rfl
    have hfailures : lines ((Outcome.ofResults results).failures.map failureLine) = [] :=
      List.filter_eq_nil_iff.2 fun _ he => by
        obtain ⟨r, -, rfl⟩ := List.mem_map.1 he
        exact Bool.false_ne_true
    rw [run_of_ok h hmoved, ← List.singleton_append]
    simp only [lines_append, hopening, hattempt, hsummary, hfailures, List.nil_append,
      List.append_nil]

theorem lines_run_of_refused {fault : SettingsFault}
    (h : Settings.ofEnvironment host.environment = .error fault) :
    lines (run host s).events = [] := by
  simp only [run, attempt, h, Ran.throw, fatalLines]
  split <;> rfl

/-- However the tasks of a batch end, and in whatever order, the meter shows a line at the first
count of each tenth and at no other.  So the percentages increase strictly from line to line, there
are at most eleven lines, and the last one is that of the number of all tasks, at 100 percent.  A
run of the worker shows the lines of its batch in this way, and without a batch it shows none. -/
theorem run_marks_tenths :
    (∀ {σ : Type} (clock : Clock) {jobs : List (Job σ)} (q : Rat) (world : σ), jobs ≠ [] →
      ∃ results trace counts time, ∃ warning : Option Text,
        let ran := Dispatch.run clock jobs (.finite q) observer world
        MarksTenths jobs.length counts ∧ Chronicle jobs results trace ∧
        ran.outcome = .ok results ∧
        ran.events = warning.toList.map Event.warn ++
          [Dispatch.openingLine jobs.length (Dispatch.workers q jobs.length)] ++
          trace.flatMap (Sighting.metered counts jobs.length) ++
          [Dispatch.closingLine time results] ∧
        lines ran.events = counts.map (lineAt jobs.length)) ∧
    ∀ (host : Host) (s : Session),
      (∀ settings results, Settings.ofEnvironment host.environment = .ok settings →
        (moved host settings s).outcome = .ok results →
        ∃ counts, MarksTenths results.length counts ∧
          lines (run host s).events = counts.map (lineAt results.length)) ∧
      ((¬ ∃ settings results, Settings.ofEnvironment host.environment = .ok settings ∧
          (moved host settings s).outcome = .ok results) →
        lines (run host s).events = []) := by
  refine ⟨fun clock jobs q world hjobs => ?_, fun host s => ⟨?_, fun hnone => ?_⟩⟩
  · obtain ⟨results, trace, time, warning, hout, hlength, hchronicle, hevents⟩ :=
      run_metered clock hjobs q world
    have hlines := isMetered_run clock jobs (.finite q) world
    rw [IsMetered, hout] at hlines
    exact ⟨results, trace, marks jobs.length, time, warning, marksTenths_marks _, hchronicle, hout,
      hevents, hlength ▸ hlines⟩
  · intro settings results h hmoved
    have hlines := isMetered_moved host settings s
    rw [IsMetered, hmoved] at hlines
    exact ⟨marks results.length, marksTenths_marks _, (lines_run h).trans hlines⟩
  · cases h : Settings.ofEnvironment host.environment with
    | error fault => exact lines_run_of_refused h
    | ok settings =>
      have hlines := isMetered_moved host settings s
      cases hmoved : (moved host settings s).outcome with
      | error error =>
        rw [IsMetered, hmoved] at hlines
        exact (lines_run h).trans hlines
      | ok results => exact absurd ⟨settings, results, h, hmoved⟩ hnone

/-- Twelve tasks that end in the opposite order, one of which throws at once. -/
def twelveTasks : List (Task × Behaviour) :=
  (List.range 12).map fun i =>
    (⟨"c", Text.ofNat i, "/d/" ++ Text.ofNat i, .upload⟩,
      if i = 4 then .throws (.general "denied") else .settles (12 - i) (.ok ()))

/-- The settings for the download of a container. -/
def fetching : Settings := ⟨.download, "abc", "/dst", none, "us-east-1", none, false⟩

def hostOfFetching : Host :=
  ⟨8, [("TRANSFER_DIRECTION", "download"), ("CONTAINER_NAME", "abc"), ("LOCAL_DIRECTORY", "/dst")],
    .binary⟩

theorem settings_fetching :
    Settings.ofEnvironment hostOfFetching.environment = .ok fetching := rfl

def threeKeys : Session := Rehearsal.ofKeys [] ["a", "b", "c"]

theorem moved_threeKeys :
    ∃ results, (moved hostOfFetching fetching threeKeys).outcome = .ok results ∧
      results.length = 3 := by
  let asked := request fetching (Concurrency.ofHost hostOfFetching).1
  have hfault : Transfer.fault? asked.container (Transfer.concurrencyOf hostOfFetching asked).1
      asked.keyPrefix = none :=
    fault?_request settings_fetching (by decide +kernel)
  have hlisted : (Transfer.listed Session.transport asked threeKeys).outcome =
      .ok (["a", "b", "c"] : List Text) := rfl
  obtain ⟨results, hresults, hmap, -⟩ :=
    Transfer.exists_results_of_listed observer hfault hlisted
  refine ⟨results, hresults, ?_⟩
  rw [← List.length_map TransferResult.task, hmap, Transfer.listedTasks, Enumeration.ofNames,
    List.length_mergeSort]
  decide +kernel

theorem run_marks_tenths_of_twelve_and_three :
    let jobs : List (Job Unit) := Behaviour.jobs twelveTasks
    jobs ≠ [] ∧
      lines (Dispatch.run .binary jobs (.finite 12) observer ()).events =
        [1, 2, 3, 4, 5, 6, 8, 9, 10, 11, 12].map (lineAt 12) ∧
      Settings.ofEnvironment hostOfFetching.environment = .ok fetching ∧
      (∃ results, (moved hostOfFetching fetching threeKeys).outcome = .ok results) ∧
      lines (run hostOfFetching threeKeys).events = [.log "Progress: 1/3 objects (30%)",
        .log "Progress: 2/3 objects (60%)", .log "Progress: 3/3 objects (100%)"] := by
  intro jobs
  have hjobs : jobs ≠ [] := List.cons_ne_nil _ _
  obtain ⟨results, hmoved, hthree⟩ := moved_threeKeys
  refine ⟨hjobs, ?_, settings_fetching, ⟨results, hmoved⟩, ?_⟩
  · obtain ⟨_, _, counts, _, _, hmarks, -, -, -, hlines⟩ :=
      run_marks_tenths.1 .binary 12 () hjobs
    have hcounts : marks 12 = [1, 2, 3, 4, 5, 6, 8, 9, 10, 11, 12] := by decide +kernel
    rw [hlines, hmarks.eq_marks]
    exact congrArg (List.map (lineAt 12)) hcounts
  · obtain ⟨counts, hmarks, hlines⟩ :=
      (run_marks_tenths.2 hostOfFetching threeKeys).1 fetching results settings_fetching hmoved
    have hcounts : marks 3 = [1, 2, 3] := by decide +kernel
    rw [hlines, hmarks.eq_marks, hthree, hcounts]
    simp only [List.map_cons, List.map_nil, ← line_eq_lineAt]
    decide +kernel

end Worker

end BulkTransfer
