import BulkTransfer.Outcome
import BulkTransfer.Proofs.Text.Search
import BulkTransfer.Proofs.Transfer.Download
import BulkTransfer.Store.Site

/-!
# Refused tasks that count as worth repeating

A refusal is a validation error, and its message quotes the names and paths that led to it.  Whether
it counts as worth repeating is read off this message, so a refused task is offered for repeating
exactly when one of the quoted texts holds the name of a condition that passes
(`download_retryable`).  Repeating makes no further checks.
-/

namespace BulkTransfer

/-! ## Messages that name a condition that passes -/

/-- The unit that stands around what a message quotes. -/
def quote : UInt16 := 0x27

/-- Whether the name of a condition that passes stands in a text. -/
def mentionsTransient (t : Text) : Bool := transientNames.any fun word => Text.hasPart word t

theorem mentionsTransient_iff (t : Text) :
    mentionsTransient t = true ↔ ∃ word ∈ transientNames, word <:+: t := by
  simp only [mentionsTransient, List.any_eq_true, Text.hasPart_iff]

theorem quote_not_mem : ∀ word ∈ transientNames, quote ∉ word := by decide +kernel

/-- A quoted text is searched by itself: no name of a condition goes over the quotes around it. -/
theorem mentionsTransient_append_quote (s t : Text) :
    mentionsTransient (s ++ quote :: t) = (mentionsTransient s || mentionsTransient t) := by
  rw [Bool.eq_iff_iff, Bool.or_eq_true]
  simp only [mentionsTransient_iff, ← exists_or, ← and_or_left]
  exact exists_congr fun word => and_congr_right fun h =>
    Text.infix_append_cons_iff (quote_not_mem word h) s t

/-- A validation error counts as worth repeating exactly when its message names a condition that
passes. -/
theorem isRetryable_validation (message : Text) :
    (Thrown.validation message).isRetryable = mentionsTransient message := by
  have hname : ∀ word ∈ transientNames, Plain.validation.name ≠ word := by decide +kernel
  have hmentions : ∀ word ∈ transientNames,
      ((Details.ofFacts (Thrown.facts Plain.validation.name message)).mentions word = true ↔
        word <:+: message) := by
    intro word hword
    simp [Details.mentions, Details.ofFacts, Thrown.facts, hname word hword, Text.hasPart_iff]
  rw [Bool.eq_iff_iff, mentionsTransient_iff, Thrown.validation, Thrown.isRetryable,
    Details.isRetryable, Bool.or_eq_true, List.any_eq_true]
  have hstatus : (Details.ofFacts (Thrown.facts Plain.validation.name message)).status = none := rfl
  simp only [hstatus, Option.any_none, Bool.false_eq_true, false_or]
  exact exists_congr fun word => and_congr_right fun h => hmentions word h

namespace Transfer

/-! ## Messages of refusals -/

theorem isRetryable_collision (task : Task) (owner : Text) :
    (collision task owner).isRetryable = (mentionsTransient task.objectName ||
      mentionsTransient task.localPath || mentionsTransient owner) := by
  -- The message at its quotes: fixed texts, which name no condition, and the texts it quotes.
  have hmessage :
      ("Object '" ++ task.objectName ++ "' resolves to local path '" ++ task.localPath ++
      "' already used by '" ++ owner ++ "'" : Text) =
        "Object " ++ quote :: (task.objectName ++ quote :: (" resolves to local path " ++
          quote :: (task.localPath ++ quote :: (" already used by " ++ quote ::
            (owner ++ quote :: []))))) := by
    have h₁ : Text.ofString "Object '" = Text.ofString "Object " ++ [quote] := by decide +kernel
    have h₂ : Text.ofString "' resolves to local path '" =
      quote :: (Text.ofString " resolves to local path " ++ [quote]) := by decide +kernel
    have h₃ : Text.ofString "' already used by '" =
      quote :: (Text.ofString " already used by " ++ [quote]) := by decide +kernel
    have h₄ : Text.ofString "'" = [quote] := by decide +kernel
    simp only [h₁, h₂, h₃, h₄, List.append_assoc, List.cons_append, List.nil_append]
  have hfixed : mentionsTransient "Object " = false ∧
      mentionsTransient " resolves to local path " = false ∧
      mentionsTransient " already used by " = false ∧ mentionsTransient [] = false := by
    decide +kernel
  rw [collision, isRetryable_validation, hmessage]
  simp only [mentionsTransient_append_quote, hfixed, Bool.false_or, Bool.or_false, Bool.or_assoc]

theorem isRetryable_escape (escape : Path.Escape) :
    (Thrown.validation escape.message).isRetryable =
      (mentionsTransient escape.candidate || mentionsTransient escape.base) := by
  have hmessage : escape.message = "Path " ++ quote :: (escape.candidate ++ quote ::
      (" resolves outside directory " ++ quote :: (escape.base ++ quote :: []))) := by
    have h₁ : Text.ofString "Path '" = Text.ofString "Path " ++ [quote] := by decide +kernel
    have h₂ : Text.ofString "' resolves outside directory '" =
      quote :: (Text.ofString " resolves outside directory " ++ [quote]) := by decide +kernel
    have h₃ : Text.ofString "'" = [quote] := by decide +kernel
    simp only [Path.Escape.message, h₁, h₂, h₃, List.append_assoc, List.cons_append,
      List.nil_append]
  have hfixed : mentionsTransient "Path " = false ∧
      mentionsTransient " resolves outside directory " = false ∧ mentionsTransient [] = false := by
    decide +kernel
  rw [isRetryable_validation, hmessage]
  simp only [mentionsTransient_append_quote, hfixed, Bool.false_or, Bool.or_false]

/-- The refusal of a task quotes a text that names a condition that passes: the task's name or path
or the name of the owner of its path, or, when it owns its path itself, this path or the
destination. -/
def Misleads (cwd : Path) (destination : Text) (tasks : List Task) (task : Task) : Prop :=
  (∃ owner, Collisions.IsFirst cwd tasks owner ∧ owner ≠ task ∧
    Path.resolve cwd owner.localPath = Path.resolve cwd task.localPath ∧
    (mentionsTransient task.objectName || mentionsTransient task.localPath ||
      mentionsTransient owner.objectName) = true) ∨
  (Collisions.IsFirst cwd tasks task ∧
    (mentionsTransient task.localPath || mentionsTransient destination) = true)

variable {σ τ : Type} {cwd : Path} {destination : Text} {tasks : List Task}

/-- A refusal counts as worth repeating exactly when a text that it quotes says so. -/
theorem isRetryable_refusal_iff
    (hsorted : tasks.Pairwise fun s t => s.objectName < t.objectName) {task : Task}
    (htask : task ∈ tasks) {error : Thrown}
    (h : refusal? cwd destination (Collisions.find cwd tasks) task = some error) :
    error.isRetryable = true ↔ Misleads cwd destination tasks task := by
  rw [refusal?] at h
  cases hfind : (Collisions.find cwd tasks).find? task.objectName with
  | some name =>
    rw [hfind] at h
    cases h
    obtain ⟨owner, hfirst, hne, rfl, hsame⟩ :=
      (Collisions.find?_find_eq_some_iff hsorted htask).1 hfind
    have hlate : ¬ Collisions.IsFirst cwd tasks task := fun ht => hne (hfirst.eq hsorted ht hsame)
    rw [isRetryable_collision, Misleads]
    constructor
    · exact fun hmentions => .inl ⟨owner, hfirst, hne, hsame, hmentions⟩
    · rintro (⟨other, hother, -, hpath, hmentions⟩ | ⟨hself, -⟩)
      · rwa [hother.eq hsorted hfirst (hpath.trans hsame.symm)] at hmentions
      · exact absurd hself hlate
  | none =>
    rw [hfind] at h
    obtain ⟨escape, hescape, rfl⟩ := Option.map_eq_some_iff.1 h
    have hself := (Collisions.find?_find_eq_none_iff hsorted htask).1 hfind
    rw [Path.escape?] at hescape
    split at hescape
    · cases hescape
      rw [isRetryable_escape, Misleads]
      constructor
      · exact fun hmentions => .inr ⟨hself, hmentions⟩
      · rintro (⟨other, hother, hne, hpath, -⟩ | ⟨-, hmentions⟩)
        · exact absurd (hother.eq hsorted hself hpath) hne
        · exact hmentions
    · cases hescape

/-! ## Tasks that are offered for repeating -/

theorem mem_retryableTasks_iff (results : List TransferResult) (task : Task) :
    task ∈ (Outcome.ofResults results).retryableTasks ↔
      ∃ r ∈ results, r.isRetryable = true ∧ r.succeeded = false ∧ r.task = task := by
  simp [Outcome.ofResults, and_assoc]

theorem mem_retryableTasks_iff_of_refused {transport : Transport σ}
    {collisions : OrderedMap Text Text} {results : List TransferResult} {task : Task}
    {error : Thrown} (hr : refusal? cwd destination collisions task = some error)
    (hyields : ∀ r ∈ results,
      (downloadJob transport cwd destination collisions r.task).Yields r)
    (hmem : task ∈ results.map TransferResult.task) :
    task ∈ (Outcome.ofResults results).retryableTasks ↔ error.isRetryable = true := by
  have hresult : ∀ r ∈ results, r.task = task →
      r.succeeded = false ∧ r.isRetryable = error.isRetryable := by
    rintro r hr' rfl
    obtain ⟨duration, h⟩ := yields_of_refused hr (hyields r hr')
    rw [h]
    exact ⟨rfl, rfl⟩
  rw [mem_retryableTasks_iff]
  constructor
  · rintro ⟨r, hr', hretryable, -, hown⟩
    rwa [(hresult r hr' hown).2] at hretryable
  · intro herror
    obtain ⟨r, hr', hown⟩ := List.mem_map.1 hmem
    obtain ⟨hfailed, hretryable⟩ := hresult r hr' hown
    exact ⟨r, hr', hretryable.trans herror, hfailed, hown⟩

/-- A task that is refused is offered for repeating exactly when its refusal quotes a text that
names a condition that passes, so all tasks that are offered are admitted ones exactly when no
refusal does. -/
theorem download_retryable (host : Host) (transport : Transport σ) (request : Request)
    (observer : Observer τ) (world : σ) (names : List Text)
    (hcwd : (transport.files world).cwd.IsNormal)
    (hfault : fault? request.container (concurrencyOf host request).1 request.keyPrefix = none)
    (hlist : (listed transport request world).outcome = .ok names) :
    let cwd := (transport.files world).cwd
    let tasks := listedTasks cwd request names
    ∃ results, (download host transport request observer world).outcome = .ok results ∧
      (∀ task ∈ tasks, ¬ Admitted cwd request.directory tasks task →
        (task ∈ (Outcome.ofResults results).retryableTasks ↔
          Misleads cwd request.directory tasks task)) ∧
      ((∀ task ∈ (Outcome.ofResults results).retryableTasks,
          Admitted cwd request.directory tasks task) ↔
        ∀ task ∈ tasks, ¬ Admitted cwd request.directory tasks task →
          ¬ Misleads cwd request.directory tasks task) := by
  intro cwd tasks
  have hsorted : tasks.Pairwise fun s t => s.objectName < t.objectName :=
    pairwise_listedTasks cwd request names
  obtain ⟨results, hresults, (htasks : results.map TransferResult.task = tasks), hyields⟩ :=
    exists_results_of_listed observer hfault hlist
  have hoffered : ∀ task ∈ tasks, ¬ Admitted cwd request.directory tasks task →
      (task ∈ (Outcome.ofResults results).retryableTasks ↔
        Misleads cwd request.directory tasks task) := by
    intro task htask hrefused
    obtain ⟨error, hr⟩ := Option.ne_none_iff_exists'.1
      fun hnone => hrefused ((refusal?_eq_none_iff hcwd hsorted htask).1 hnone)
    rw [mem_retryableTasks_iff_of_refused hr hyields (htasks ▸ htask)]
    exact isRetryable_refusal_iff hsorted htask hr
  refine ⟨results, hresults, hoffered, fun h task htask hrefused hmisleads => ?_,
    fun h task hretry => ?_⟩
  · exact hrefused (h task ((hoffered task htask hrefused).2 hmisleads))
  · obtain ⟨r, hresult, -, -, hown⟩ := (mem_retryableTasks_iff results task).1 hretry
    have htask : task ∈ tasks := htasks ▸ List.mem_map.2 ⟨r, hresult, hown⟩
    by_contra hrefused
    exact h task htask hrefused ((hoffered task htask hrefused).1 hretry)

/-- An object that is refused for leading out of the destination is offered for repeating, for its
name. -/
theorem download_retryable_escape :
    let site : Site :=
      ⟨⟨.ofList [("c", .ofList [("../SlowDown", [1])])], .empty, none, none, 1, .empty, [], 0, 0⟩,
        ⟨["work"], .empty⟩⟩
    let host : Host := ⟨2, [], .binary⟩
    let request : Request := ⟨"c", "/dst", some (.finite 1), none⟩
    let names : List Text := ["../SlowDown"]
    let task : Task := ⟨"c", "../SlowDown", "/SlowDown", .download⟩
    (Site.transport.files site).cwd.IsNormal ∧
      fault? request.container (concurrencyOf host request).1 request.keyPrefix = none ∧
      (listed Site.transport request site).outcome = .ok names ∧
      ∃ results, (download host Site.transport request .silent site).outcome = .ok results ∧
        task ∈ (Outcome.ofResults results).retryableTasks ∧
        ¬ Admitted ["work"] request.directory (listedTasks ["work"] request names) task := by
  intro site host request names task
  have hcwd : (Site.transport.files site).cwd.IsNormal := by decide +kernel
  have hfault : fault? request.container (concurrencyOf host request).1 request.keyPrefix =
      none := by decide +kernel
  have hlist : (listed Site.transport request site).outcome = .ok names := rfl
  have htasks : listedTasks ["work"] request names = [task] := by decide +kernel
  obtain ⟨results, hresults, hoffered, -⟩ :=
    download_retryable host Site.transport request .silent site names hcwd hfault hlist
  have hrefused : ¬ Admitted ["work"] request.directory (listedTasks ["work"] request names) task :=
    fun h => absurd h.inside.1 (by decide +kernel)
  have hfirst : Collisions.IsFirst ["work"] (listedTasks ["work"] request names) task := by
    rw [htasks]
    refine ⟨List.mem_singleton_self _, fun other hother _ => ?_⟩
    rw [List.mem_singleton.1 hother]
    exact List.le_refl _
  have hmentions :
      (mentionsTransient task.localPath || mentionsTransient request.directory) = true := by
    decide +kernel
  exact ⟨hcwd, hfault, hlist, results, hresults,
    (hoffered task hfirst.1 hrefused).2 (.inr ⟨hfirst, hmentions⟩), hrefused⟩

end Transfer

end BulkTransfer
