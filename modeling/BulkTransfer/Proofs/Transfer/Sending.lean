import BulkTransfer.Proofs.Bucket.Talk
import BulkTransfer.Proofs.Naming.KeyPrefix
import BulkTransfer.Proofs.Transfer.Download

/-!
# What a move sends to a bucket service

All that a move sends is about its container: the commands that look for it and make it, those that
put objects under the normal form of the key prefix, those that get objects, and those that list the
objects under that normal form (`sends_move`).  The normal form of an accepted key prefix does not
begin with a slash; but it may hold units that no key prefix may hold, and these are control units
(`sends_under_accepted`).
-/

namespace BulkTransfer

namespace Session

variable {asks : Command → Prop} {s t u : Session} {α β : Type}

/-! ## Commands that were sent -/

/-- Between two sessions only such commands were sent. -/
def Sends (asks : Command → Prop) (s t : Session) : Prop :=
  ∃ new, t.sent = s.sent ++ new ∧ ∀ x ∈ new, asks x.command

theorem Sends.refl (asks : Command → Prop) (s : Session) : s.Sends asks s :=
  ⟨[], (List.append_nil s.sent).symm, fun _ h => absurd h List.not_mem_nil⟩

theorem Sends.trans (hst : s.Sends asks t) (htu : t.Sends asks u) : s.Sends asks u := by
  obtain ⟨new, hnew, hasks⟩ := hst
  obtain ⟨newer, hnewer, hasksnewer⟩ := htu
  refine ⟨new ++ newer, ?_, List.forall_mem_append.2 ⟨hasks, hasksnewer⟩⟩
  rw [hnewer, hnew, List.append_assoc]

theorem Sends.mono {more : Command → Prop} (h : s.Sends asks t) (hmore : ∀ c, asks c → more c) :
    s.Sends more t := by
  obtain ⟨new, hnew, hasks⟩ := h
  exact ⟨new, hnew, fun x hx => hmore _ (hasks x hx)⟩

theorem Talks.sends {talk : Talk} (h : s.Talks talk t)
    (hasks : ∀ exchange ∈ talk, asks exchange.1) : s.Sends asks t := by
  refine ⟨talk.map Sent.ofReply, h.sent_eq, fun x hx => ?_⟩
  obtain ⟨exchange, hmem, rfl⟩ := List.mem_map.1 hx
  exact hasks exchange hmem

theorem Reports.sends {talk : Talk} {outcome : Except Thrown α}
    (h : Reports asks s talk outcome t) : s.Sends asks t :=
  h.talks.sends h.commands

theorem Ensures.sends {console : Console} {bucket : Text} {talk : Talk} {ran : Ran Session Unit}
    (h : Ensures console bucket s talk ran) :
    s.Sends (fun c => c = .head bucket ∨ c = .create bucket) ran.world := by
  refine h.talks.sends fun exchange hmem => ?_
  have hcommand := List.mem_map_of_mem (f := Prod.fst) hmem
  rcases h.commands with hfst | hfst
  · rw [hfst] at hcommand
    exact .inl (List.mem_singleton.1 hcommand)
  · rw [hfst] at hcommand
    simpa using hcommand

/-- What one run sends and what the run after it sends. -/
theorem Sends.andThen {r : Ran Session α} {next : α → Session → Ran Session β}
    (h : s.Sends asks r.world)
    (hnext : ∀ a, r.outcome = .ok a → r.world.Sends asks (next a r.world).world) :
    s.Sends asks (r.andThen next).world := by
  rw [Ran.andThen]
  cases hr : r.outcome with
  | error error => exact h
  | ok a => exact h.trans (hnext a hr)

end Session

/-! ## Batches -/

/-- The operation of a job sends only such commands. -/
structure Job.Sends (asks : Command → Prop) (job : Job Session) : Prop where
  call : ∀ s : Session, s.Sends asks (job.call s).2
  waits : ∀ {s : Session} {delay finish}, (job.call s).1 = .waits delay finish →
    ∀ t : Session, t.Sends asks (finish t).2

variable {asks : Command → Prop} {jobs : List (Job Session)}

theorem Pool.keeps_sends (clock : Clock) (hjobs : ∀ job ∈ jobs, job.Sends asks) (s : Session) :
    Keeps clock jobs (fun t _ => s.Sends asks t) (fun _ _ _ => True)
      (fun _ flight => ∀ t : Session, t.Sends asks (flight.finish t).2) where
  call := fun hjob h => h.trans ((hjobs _ (List.mem_of_getElem? hjob)).call _)
  throws := fun _ _ => trivial
  refused := fun _ _ _ => trivial
  waits := fun hjob hl _ => (hjobs _ (List.mem_of_getElem? hjob)).waits hl
  ends_call := fun _ _ => trivial
  ends_land := fun _ _ => trivial
  conclude := fun _ h => h
  land := fun hflies h => h.trans (hflies _)

/-- A batch sends what the operations of its jobs send. -/
theorem Dispatch.sends_run {τ : Type} (clock : Clock) (observer : Observer τ) (s : Session)
    {concurrency : Number} (hjobs : ∀ job ∈ jobs, job.Sends asks)
    (h : concurrency.isFinite = true) :
    s.Sends asks (run clock jobs concurrency observer s).world := by
  obtain ⟨-, -, -, -, -, hsends⟩ :=
    exists_finished observer (Pool.keeps_sends clock hjobs s) (Session.Sends.refl asks s) h
  exact hsends

/-! ## Moves -/

namespace Transfer

/-- The commands about a container, with objects put and listed under a key prefix in normal
form. -/
inductive Asked (container keys : Text) : Command → Prop
  | head : Asked container keys (.head container)
  | create : Asked container keys (.create container)
  | put (file : Text) (body : Option Bytes) :
    Asked container keys (.put container (keys ++ file) body)
  | get (name : Text) : Asked container keys (.get container name)
  | list (token : Option Text) :
    Asked container keys (.list container (Enumeration.listingPrefix keys) token)

theorem container_of_ofContainer {σ : Type} {list : Enumeration.Lister σ} {cwd : Path}
    {container directory : Text} {keyPrefix : Option Text} {world : σ} {tasks : List Task}
    (h : (Enumeration.ofContainer list cwd container directory keyPrefix world).outcome = .ok tasks)
    {task : Task} (htask : task ∈ tasks) : task.container = container := by
  simp only [Enumeration.ofContainer] at h
  split at h
  · cases h
  · cases h
    obtain ⟨name, -, -, rfl⟩ := (Enumeration.mem_ofNames_iff _ _ _ _).1 htask
    rfl

theorem exists_task_of_ofDirectory {σ : Type} {files : Files} {container directory : Text}
    {keyPrefix : Option Text} {world : σ} {tasks : List Task}
    (h : (Enumeration.ofDirectory files container directory keyPrefix world).outcome = .ok tasks)
    {task : Task} (htask : task ∈ tasks) :
    ∃ name, task = Enumeration.Source.task
      ⟨container, Path.resolve files.cwd directory, keyPrefix⟩ name := by
  rw [Enumeration.ofDirectory] at h
  split at h
  · cases h
  · cases h
    rw [Enumeration.sorted, List.mem_mergeSort, List.mem_filterMap] at htask
    obtain ⟨entry, -, hentry⟩ := htask
    rw [Enumeration.Source.task?] at hentry
    split at hentry
    · exact ⟨entry.1, (Option.some.inj hentry).symm⟩
    · cases hentry

variable {τ : Type} {container keys : Text}

theorem sends_uploadJob {task : Task} {file : Text} (hcontainer : task.container = container)
    (hname : task.objectName = keys ++ file) :
    (uploadJob Session.transport task).Sends (Asked container keys) where
  call := .refl _
  waits := fun hwaits t => by
    cases hwaits
    obtain ⟨talk, hreports⟩ := Session.exists_reports_put task t
    refine hreports.sends.mono ?_
    rintro _ ⟨body, rfl⟩
    rw [hcontainer, hname]
    exact .put file body

theorem sends_downloadJob {task : Task} (hcontainer : task.container = container) (cwd : Path)
    (destination : Text) (collisions : OrderedMap Text Text) :
    (downloadJob Session.transport cwd destination collisions task).Sends
      (Asked container keys) := by
  cases hrefusal : refusal? cwd destination collisions task with
  | some error =>
    have hcall := call_of_refused Session.transport hrefusal
    refine ⟨fun s => by rw [hcall]; exact .refl _ s, fun hwaits => ?_⟩
    rw [hcall] at hwaits
    cases hwaits
  | none =>
    have hcall := call_of_not_refused Session.transport hrefusal
    refine ⟨fun s => by rw [hcall]; exact .refl _ s, fun hwaits t => ?_⟩
    rw [hcall] at hwaits
    cases hwaits
    obtain ⟨talk, hreports⟩ := Session.exists_reports_get task t
    refine hreports.sends.mono ?_
    rintro _ rfl
    rw [hcontainer]
    exact .get _

section

variable {σ : Type} {host : Host} {request : Request} {world : σ}

theorem check_world (host : Host) (request : Request) (world : σ) :
    (check host request world).world = world := by
  simp only [check]
  split <;> rfl

theorem isFinite_of_check {n : Number} (h : (check host request world).outcome = .ok n) :
    n.isFinite = true := by
  have hfault := fault?_eq_none_of_check h
  rw [check_of_fault?_eq_none host hfault] at h
  cases h
  exact isFinite_of_fault?_eq_none hfault

theorem ofDirectory_world (files : Files) (container directory : Text) (keyPrefix : Option Text)
    (world : σ) :
    (Enumeration.ofDirectory files container directory keyPrefix world).world = world := by
  rw [Enumeration.ofDirectory]
  split <;> rfl

theorem ofContainer_world (list : Enumeration.Lister σ) (cwd : Path) (container directory : Text)
    (keyPrefix : Option Text) (world : σ) :
    (Enumeration.ofContainer list cwd container directory keyPrefix world).world =
      (list container (Enumeration.listingPrefix (KeyPrefix.normalize keyPrefix)) world).world := by
  simp only [Enumeration.ofContainer]
  split <;> rfl

end

variable (host : Host) (request : Request) (observer : Observer τ) (s : Session)

theorem sends_check : s.Sends asks (check host request s).world := by
  rw [check_world]
  exact .refl asks s

theorem sends_ensureBucket (bucket : Text) :
    s.Sends (Asked bucket keys) (Session.ensureBucket bucket s).world := by
  obtain ⟨talk, hensures⟩ := Session.exists_ensures .plain bucket s
  refine hensures.sends.mono ?_
  rintro _ (rfl | rfl)
  · exact .head
  · exact .create

theorem sends_list (bucket : Text) :
    s.Sends (Asked bucket keys)
      (Session.list bucket (Enumeration.listingPrefix keys) s).world := by
  obtain ⟨talk, hreports⟩ :=
    Session.exists_reports_list bucket (Enumeration.listingPrefix keys) s
  refine hreports.sends.mono ?_
  rintro _ ⟨token, rfl⟩
  exact .list token

theorem sends_upload :
    s.Sends (Asked request.container (KeyPrefix.normalize request.keyPrefix))
      (upload host Session.transport request observer s).world := by
  rw [upload]
  refine (sends_check host request s).andThen fun n hn => ?_
  refine (sends_ensureBucket _ request.container).andThen fun _ _ => ?_
  refine Session.Sends.andThen ?_ fun tasks htasks => ?_
  · rw [ofDirectory_world]
    exact .refl _ _
  · refine Dispatch.sends_run host.clock observer _ (fun job hjob => ?_) (isFinite_of_check hn)
    obtain ⟨task, htask, rfl⟩ := List.mem_map.1 hjob
    obtain ⟨name, rfl⟩ := exists_task_of_ofDirectory htasks htask
    exact sends_uploadJob rfl rfl

theorem sends_download :
    s.Sends (Asked request.container (KeyPrefix.normalize request.keyPrefix))
      (download host Session.transport request observer s).world := by
  rw [download]
  refine (sends_check host request s).andThen fun n hn => ?_
  refine Session.Sends.andThen ?_ fun tasks htasks => ?_
  · rw [ofContainer_world]
    exact sends_list _ request.container
  · refine Dispatch.sends_run host.clock observer _ (fun job hjob => ?_) (isFinite_of_check hn)
    obtain ⟨task, htask, rfl⟩ := List.mem_map.1 hjob
    exact sends_downloadJob (container_of_ofContainer htasks htask) _ _ _

/-- All that a move sends is about its container, and it puts and lists objects under the normal
form of its key prefix. -/
theorem sends_move (direction : Direction) :
    s.Sends (Asked request.container (KeyPrefix.normalize request.keyPrefix))
      (move direction host Session.transport request observer s).world := by
  cases direction with
  | upload => exact sends_upload host request observer s
  | download => exact sends_download host request observer s

/-- A move with an accepted key prefix puts and lists objects under its normal form.  This does not
begin with a slash, and the only units of it that are not allowed are control units: all of its
units are allowed exactly when the key prefix, but for blanks at its ends, holds no control unit. -/
theorem sends_under_accepted (t : Text) (h : KeyPrefix.fault? t = none) :
    let keys := KeyPrefix.normalize (some t)
    keys.head? ≠ some Text.slash ∧
      (∀ u ∈ keys, KeyPrefix.isAllowed u = !Text.isControl u) ∧
      ((∀ u ∈ keys, KeyPrefix.isAllowed u = true) ↔ ∀ u ∈ Text.trim t, Text.isControl u = false) ∧
      ∀ {τ : Type} (direction : Direction) (host : Host) (request : Request)
        (observer : Observer τ) (s : Session), request.keyPrefix = some t →
        s.Sends (Asked request.container keys)
          (move direction host Session.transport request observer s).world := by
  obtain ⟨hhead, hunits, hall⟩ := KeyPrefix.normalize_of_accepted t h
  refine ⟨hhead, hunits, hall, fun direction host request observer s hkeys => ?_⟩
  rw [← hkeys]
  exact sends_move host request observer s direction

/-- A key prefix with a zero unit inside is accepted, and the unit is in its normal form. -/
theorem sends_under_accepted_zero :
    let t : Text := [0x61, 0x00, 0x62]
    let keys : Text := [0x61, 0x00, 0x62, 0x2F]
    let request : Request := ⟨"c", "/src", some (.finite 1), some t⟩
    KeyPrefix.fault? t = none ∧ KeyPrefix.normalize (some t) = keys ∧
      (¬ ∀ u ∈ keys, KeyPrefix.isAllowed u = true) ∧ request.keyPrefix = some t ∧
      ∀ (host : Host) (s : Session), s.Sends (Asked "c" keys)
        (move .upload host Session.transport request .silent s).world := by
  intro t keys request
  have haccepted : KeyPrefix.fault? t = none := by decide +kernel
  have hkeys : KeyPrefix.normalize (some t) = keys := by decide +kernel
  obtain ⟨-, -, hall, hsends⟩ := sends_under_accepted t haccepted
  rw [hkeys] at hall hsends
  refine ⟨haccepted, hkeys, fun hallowed => ?_, rfl,
    fun host s => hsends .upload host request .silent s rfl⟩
  have hzero := hall.1 hallowed 0 (by decide)
  exact absurd hzero (by decide)

end Transfer

end BulkTransfer
