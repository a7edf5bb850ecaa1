import BulkTransfer.Bucket.Client
import BulkTransfer.Proofs.Thrown.Passing

/-!
# What the calls of the client report

A call of the client is a talk with the service: some commands, each with its reply.  It fails with
a storage error only, which stands for what made the call fail (`Reports`), so no cause is lost that
is asked for later on.  All calls but one pass on whatever a command throws; making a container goes
on when the bucket is missing and is content when it is there already (`calls_report`).
-/

namespace BulkTransfer

/-! ## Errors that stand for others -/

namespace Thrown

/-- A storage error for a thrown value is this value, or has it as its cause; either way it counts
as worth repeating when the value does. -/
structure StandsFor (e cause : Thrown) : Prop where
  storage : e.isStorage = true
  itself : cause.isStorage = true → e = cause
  wraps : cause.isStorage = false → ∃ message, e = .storage message cause
  retryable : e.isRetryable = cause.isRetryable

theorem asStorage_standsFor (cause : Thrown) (container object : Option Text) :
    (cause.asStorage container object).StandsFor cause := by
  have hretryable := isRetryable_asStorage cause container object
  cases h : cause.isStorage with
  | true =>
    rw [asStorage, if_pos h]
    exact ⟨h, fun _ => rfl, fun hnot => Bool.noConfusion (h.symm.trans hnot), rfl⟩
  | false =>
    rw [asStorage_of_not_isStorage h]
    exact ⟨rfl, fun hself => Bool.noConfusion (h.symm.trans hself), fun _ => ⟨_, rfl⟩, rfl⟩

end Thrown

/-! ## Talks -/

/-- Commands that were sent one after the other, each with its reply. -/
abbrev Talk := List (Command × Reply)

/-- What is kept of a command that got a reply. -/
def Sent.ofReply (exchange : Command × Reply) : Sent :=
  ⟨exchange.1, exchange.2.accepts && exchange.1.isReadable⟩

/-- What can make a call fail that has talked with the service: what a command throws, a call on the
local files, content that fails while it is read, and content that cannot be read at all. -/
inductive Talk.Blames (talk : Talk) : Thrown → Prop
  | command {command : Command} {error : Thrown} (h : (command, .failed error) ∈ talk) :
    Blames talk error
  | file (e : FileError) : Blames talk e.thrown
  | broken {command : Command} {answer : Answer} {error : Thrown}
    (h : (command, .answered answer) ∈ talk) (hbody : answer.body = .broken error) :
    Blames talk error
  | unreadable {command : Command} {answer : Answer} (h : (command, .answered answer) ∈ talk)
    (hbody : answer.body = .unreadable) (key : Text) : Blames talk (Session.noBody key)

theorem Talk.Blames.mono {talk more : Talk} {cause : Thrown} (h : talk.Blames cause)
    (hsub : talk ⊆ more) : more.Blames cause := by
  cases h with
  | command h => exact .command (hsub h)
  | file e => exact .file e
  | broken h hbody => exact .broken (hsub h) hbody
  | unreadable h hbody key => exact .unreadable (hsub h) hbody key

namespace Session

/-- A talk takes a session to a later one; files may change between its commands. -/
inductive Talks (s : Session) : Talk → Session → Prop
  | silent : Talks s [] s
  | files {talk : Talk} {t : Session} (h : Talks s talk t) (files : Files) :
    Talks s talk { t with files }
  | send {talk : Talk} {t : Session} (h : Talks s talk t) (command : Command) :
    Talks s (talk ++ [(command, (t.send command).1)]) (t.send command).2

variable {s t : Session} {talk : Talk}

theorem talks_send (s : Session) (command : Command) :
    s.Talks [(command, (s.send command).1)] (s.send command).2 :=
  .send .silent command

theorem Talks.trans {r : Session} {next : Talk} (h : s.Talks talk t) (hnext : t.Talks next r) :
    s.Talks (talk ++ next) r := by
  induction hnext with
  | silent => rwa [List.append_nil]
  | files _ files ih => exact ih.files files
  | send _ command ih =>
    rw [← List.append_assoc]
    exact ih.send command

theorem sent_send (s : Session) (command : Command) :
    (s.send command).2.sent = s.sent ++ [Sent.ofReply (command, (s.send command).1)] := rfl

/-- A talk adds its commands to those sent before. -/
theorem Talks.sent_eq (h : s.Talks talk t) : t.sent = s.sent ++ talk.map Sent.ofReply := by
  induction h with
  | silent => exact (List.append_nil s.sent).symm
  | files _ files ih => exact ih
  | send _ command ih =>
    rw [sent_send, ih, List.append_assoc, List.map_append]
    rfl

theorem talks_of_send {command : Command} {reply : Reply} (h : s.send command = (reply, t)) :
    s.Talks [(command, reply)] t := by
  have htalks := talks_send s command
  rwa [h] at htalks

/-! ## Calls -/

section

variable {α β : Type} {asks : Command → Prop} {outcome : Except Thrown α}

/-- A call talks with the service, and throws what made it fail; what a command throws does so. -/
structure Tells (asks : Command → Prop) (s : Session) (talk : Talk) (outcome : Except Thrown α)
    (t : Session) : Prop where
  talks : s.Talks talk t
  commands : ∀ exchange ∈ talk, asks exchange.1
  blames : ∀ cause, outcome = .error cause → talk.Blames cause
  heeds : ∀ command error, (command, .failed error) ∈ talk → outcome = .error error

/-- A call talks with the service.  It throws storage errors only, each of which stands for what
made the call fail; what a command throws does so. -/
structure Reports (asks : Command → Prop) (s : Session) (talk : Talk) (outcome : Except Thrown α)
    (t : Session) : Prop where
  talks : s.Talks talk t
  commands : ∀ exchange ∈ talk, asks exchange.1
  stands : ∀ e, outcome = .error e → ∃ cause, talk.Blames cause ∧ e.StandsFor cause
  heeds : ∀ command error, (command, .failed error) ∈ talk →
    ∃ e, outcome = .error e ∧ e.StandsFor error

theorem Tells.reports (h : Tells asks s talk outcome t) (container object : Option Text) :
    Reports asks s talk (outcome.mapError fun e => e.asStorage container object) t where
  talks := h.talks
  commands := h.commands
  stands := fun e he => by
    cases houtcome : outcome with
    | ok a => rw [houtcome] at he; cases he
    | error cause =>
      rw [houtcome] at he
      cases he
      exact ⟨cause, h.blames cause houtcome, cause.asStorage_standsFor container object⟩
  heeds := fun command error hmem => by
    rw [h.heeds command error hmem]
    exact ⟨_, rfl, error.asStorage_standsFor container object⟩

/-- A call that is over before it has sent anything. -/
theorem tells_of_file (e : FileError) : Tells asks s [] (.error e.thrown : Except Thrown α) s where
  talks := .silent
  commands := fun _ h => absurd h List.not_mem_nil
  blames := fun _ h => by cases h; exact .file e
  heeds := fun _ _ h => absurd h List.not_mem_nil

/-- A call whose only command throws. -/
theorem tells_of_failed {command : Command} {error : Thrown} (hasks : asks command)
    (h : s.send command = (.failed error, t)) :
    Tells asks s [(command, .failed error)] (.error error : Except Thrown α) t where
  talks := talks_of_send h
  commands := List.forall_mem_singleton.2 hasks
  blames := fun _ h => by cases h; exact .command List.mem_cons_self
  heeds := fun _ _ h => by cases List.mem_singleton.1 h; rfl

/-- A call whose only command is answered. -/
theorem tells_of_answered {command : Command} {answer : Answer} (hasks : asks command)
    (h : s.send command = (.answered answer, t)) (files : Files)
    (hblames : ∀ cause, outcome = .error cause → Talk.Blames [(command, .answered answer)] cause) :
    Tells asks s [(command, .answered answer)] outcome { t with files } where
  talks := (talks_of_send h).files files
  commands := List.forall_mem_singleton.2 hasks
  blames := hblames
  heeds := fun _ _ h => by cases List.mem_singleton.1 h

/-- A call that goes on after its first command was answered. -/
theorem Tells.after {command : Command} {answer : Answer} {r : Session} {rest : Except Thrown α}
    (h : Tells asks t talk rest r) (hasks : asks command)
    (hsend : s.send command = (.answered answer, t)) (f : α → β) :
    Tells asks s ((command, .answered answer) :: talk) (rest.map f) r where
  talks := (talks_of_send hsend).trans h.talks
  commands := List.forall_mem_cons.2 ⟨hasks, h.commands⟩
  blames := fun cause hcause => by
    cases rest with
    | ok a => cases hcause
    | error error =>
      cases hcause
      exact (h.blames _ rfl).mono (List.subset_cons_self _ _)
  heeds := fun command error hmem => by
    rcases List.mem_cons.1 hmem with hfirst | hrest
    · cases hfirst
    · rw [h.heeds command error hrest]
      rfl

end

/-! ## Objects -/

/-- The command that puts the object of a task. -/
def Puts (task : Task) (command : Command) : Prop :=
  ∃ body, command = .put task.container task.objectName body

theorem exists_tells_sendFile (task : Task) (s : Session) :
    ∃ talk, Tells (Puts task) s talk (sendFile task s).1 (sendFile task s).2 := by
  rw [sendFile]
  cases s.files.stat task.localPath with
  | error e => exact ⟨[], tells_of_file e⟩
  | ok entry =>
    generalize s.files.read task.localPath = content
    rcases h : s.send (.put task.container task.objectName content.toOption) with ⟨reply, t⟩
    have hputs : Puts task (.put task.container task.objectName content.toOption) := ⟨_, rfl⟩
    simp only [h]
    cases reply with
    | failed error => exact ⟨_, tells_of_failed hputs h⟩
    | answered answer =>
      cases content with
      | error e =>
        cases hdrains : t.remote.drains with
        | true =>
          simp only [hdrains, if_true]
          exact ⟨_, tells_of_answered hputs h t.files fun _ hcause => by
            cases hcause
            exact .file e⟩
        | false =>
          simp only [hdrains, Bool.false_eq_true, if_false]
          exact ⟨_, tells_of_answered hputs h t.files fun _ hcause => by cases hcause⟩
      | ok bytes => exact ⟨_, tells_of_answered hputs h t.files fun _ hcause => by cases hcause⟩

/-- What can make the content of an answer fail to be written. -/
theorem blames_writeBody {talk : Talk} {command : Command} {answer : Answer} {task : Task}
    {f : Files} {cause : Thrown} (hmem : (command, .answered answer) ∈ talk)
    (h : (writeBody task answer.body f).1 = .error cause) : talk.Blames cause := by
  cases hbody : answer.body with
  | unreadable =>
    rw [hbody] at h
    cases h
    exact .unreadable hmem hbody task.objectName
  | bytes content =>
    rw [hbody, writeBody] at h
    rcases hwrite : f.writeUnder task.localPath content with ⟨outcome, files⟩
    rw [hwrite] at h
    cases outcome with
    | ok written => cases h
    | error e =>
      cases h
      exact .file e
  | broken error =>
    rw [hbody, writeBody] at h
    rcases hmake : f.makeDirectories (Path.parentText task.localPath) with ⟨outcome, files⟩
    rw [hmake] at h
    cases outcome with
    | ok made =>
      cases h
      exact .broken hmem hbody
    | error e =>
      cases h
      exact .file e

/-- The command that gets the object of a task. -/
def Gets (task : Task) (command : Command) : Prop :=
  command = .get task.container task.objectName

theorem exists_tells_receiveFile (task : Task) (s : Session) :
    ∃ talk, Tells (Gets task) s talk (receiveFile task s).1 (receiveFile task s).2 := by
  rw [receiveFile]
  rcases h : s.send (.get task.container task.objectName) with ⟨reply, t⟩
  have hgets : Gets task (.get task.container task.objectName) := rfl
  cases reply with
  | failed error => exact ⟨_, tells_of_failed hgets h⟩
  | answered answer =>
    exact ⟨_, tells_of_answered hgets h _ fun _ => blames_writeBody List.mem_cons_self⟩

theorem exists_reports_put (task : Task) (s : Session) :
    ∃ talk, Reports (Puts task) s talk (put task s).1 (put task s).2 := by
  obtain ⟨talk, h⟩ := exists_tells_sendFile task s
  exact ⟨talk, h.reports _ _⟩

theorem exists_reports_get (task : Task) (s : Session) :
    ∃ talk, Reports (Gets task) s talk (get task s).1 (get task s).2 := by
  obtain ⟨talk, h⟩ := exists_tells_receiveFile task s
  exact ⟨talk, h.reports _ _⟩

/-! ## Listings -/

/-- A command that lists a page of the objects under a key prefix. -/
def Lists (bucket : Text) (start : Option Text) (command : Command) : Prop :=
  ∃ token, command = .list bucket start token

theorem exists_tells_readPages (bucket : Text) (start : Option Text) (queue : Nat)
    (token : Option Text) (s : Session) :
    ∃ talk, Tells (Lists bucket start) s talk (readPages bucket start queue token s).1
      (readPages bucket start queue token s).2 := by
  induction queue generalizing token s with
  | zero =>
    rw [readPages]
    rcases h : s.send (.list bucket start token) with ⟨reply, t⟩
    cases reply with
    | failed error => exact ⟨_, tells_of_failed ⟨token, rfl⟩ h⟩
    | answered answer =>
      exact ⟨_, tells_of_answered ⟨token, rfl⟩ h t.files fun _ hcause => by cases hcause⟩
  | succ queue ih =>
    rw [readPages]
    rcases h : s.send (.list bucket start token) with ⟨reply, t⟩
    cases reply with
    | failed error => exact ⟨_, tells_of_failed ⟨token, rfl⟩ h⟩
    | answered answer =>
      cases hnext : answer.page.continuation with
      | none =>
        simp only [hnext]
        exact ⟨_, tells_of_answered ⟨token, rfl⟩ h t.files fun _ hcause => by cases hcause⟩
      | some next =>
        obtain ⟨talk, hrest⟩ := ih (some next) t
        simp only [hnext]
        exact ⟨_, hrest.after ⟨token, rfl⟩ h _⟩

theorem exists_reports_list (bucket : Text) (start : Option Text) (s : Session) :
    ∃ talk, Reports (Lists bucket start) s talk (list bucket start s).outcome
      (list bucket start s).world := by
  obtain ⟨talk, h⟩ := exists_tells_readPages bucket start s.remote.pages.length none s
  exact ⟨talk, h.reports _ _⟩

/-! ## Containers -/

/-- The names and the status by which an error says that a bucket is not there.  Only errors have a
name, so what is no error says so by its status alone. -/
def Missing (e : Thrown) : Prop :=
  e.details.name = some "NotFound" ∨ e.details.name = some "NoSuchBucket" ∨
    e.details.status = some (.finite 404)

theorem saysMissing_iff (e : Thrown) : saysMissing e = true ↔ Missing e := by
  rw [saysMissing, Bool.or_eq_true, Bool.or_eq_true, Details.hasStatus_iff, Details.isNamed,
    Details.isNamed, beq_iff_eq, beq_iff_eq, or_assoc]
  rfl

/-- The name by which an error says that a bucket is there already. -/
def Owned (e : Thrown) : Prop := e.details.name = some "BucketAlreadyOwnedByYou"

theorem saysOwned_iff (e : Thrown) : saysOwned e = true ↔ Owned e := beq_iff_eq

variable {console : Console} {bucket line : Text} {e cause : Thrown}

theorem world_giveUp : (giveUp console line bucket e s).world = s := by
  unfold giveUp
  split <;> rfl

theorem exists_outcome_giveUp (console : Console) (line bucket : Text) (e : Thrown) (s : Session) :
    ∃ error, (giveUp console line bucket e s).outcome = .error error := by
  unfold giveUp
  split
  · exact ⟨_, rfl⟩
  · exact ⟨_, rfl⟩

/-- A line that holds no percent sign is printed, and then the storage error is thrown. -/
theorem giveUp_of_plain (h : Text.unit '%' ∉ line) :
    giveUp console line bucket e s =
      ⟨.error (e.asStorage (some bucket) none), s, [.error line]⟩ := by
  unfold giveUp
  rw [console.fault?_eq_none line e h]

/-- The error of a bucket that cannot be had stands for what a command threw, unless the name of the
bucket holds a percent sign and to print the line about it throws. -/
def Explains (console : Console) (bucket : Text) (e cause : Thrown) : Prop :=
  e.StandsFor cause ∨ Text.unit '%' ∈ bucket ∧
    console.fault? ("Failed to create container " ++ bucket ++ ":") cause = some e

/-- The bucket is asked for, and made when the service says that it is missing.  This succeeds
when the bucket is there, when it is made, and when it turns out to be owned already; otherwise the
error explains what the last command threw. -/
structure Ensures (console : Console) (bucket : Text) (s : Session) (talk : Talk)
    (ran : Ran Session Unit) : Prop where
  talks : s.Talks talk ran.world
  commands : talk.map Prod.fst = [.head bucket] ∨
    talk.map Prod.fst = [.head bucket, .create bucket]
  creates : Command.create bucket ∈ talk.map Prod.fst ↔
    ∃ e, (.head bucket, .failed e) ∈ talk ∧ Missing e
  resolves : ran.outcome = .ok () ↔
    (∃ answer, (.head bucket, .answered answer) ∈ talk) ∨
      (∃ answer, (.create bucket, .answered answer) ∈ talk) ∨
      ∃ e, (.create bucket, .failed e) ∈ talk ∧ Owned e
  explains : ∀ e, ran.outcome = .error e →
    ∃ command cause, talk.getLast? = some (command, .failed cause) ∧
      Explains console bucket e cause

theorem not_mem_creationLine (h : Text.unit '%' ∉ bucket) :
    Text.unit '%' ∉ ("Failed to create container " : Text) ++ bucket ++ ":" := by
  have hbefore : Text.unit '%' ∉ ("Failed to create container " : Text) := by decide +kernel
  have hbehind : Text.unit '%' ∉ (":" : Text) := by decide +kernel
  rw [List.mem_append, List.mem_append]
  rintro ((hmem | hmem) | hmem)
  · exact hbefore hmem
  · exact h hmem
  · exact hbehind hmem

/-- The error of a bucket that cannot be made explains what was thrown. -/
theorem explains_of_giveUp
    (h : (giveUp console ("Failed to create container " ++ bucket ++ ":") bucket cause s).outcome =
      .error e) : Explains console bucket e cause := by
  unfold giveUp at h
  split at h
  · next fault hfault =>
    cases h
    refine .inr ⟨Decidable.byContradiction fun hplain => ?_, hfault⟩
    cases (console.fault?_eq_none _ _ (not_mem_creationLine hplain)).symm.trans hfault
  · cases h
    exact .inl (cause.asStorage_standsFor _ _)

/-- Making a bucket succeeds when it is made or owned already; otherwise its error explains what was
thrown. -/
theorem createBucketOn_of_send (console : Console) {t u : Session} {reply : Reply}
    (h : t.send (.create bucket) = (reply, u)) :
    (createBucketOn console bucket t).world = u ∧
      ((createBucketOn console bucket t).outcome = .ok () ↔
        (∃ answer, reply = .answered answer) ∨ ∃ e, reply = .failed e ∧ saysOwned e = true) ∧
      ∀ e, (createBucketOn console bucket t).outcome = .error e →
        ∃ cause, reply = .failed cause ∧ Explains console bucket e cause := by
  unfold createBucketOn
  rw [h]
  cases reply with
  | answered answer =>
    exact ⟨rfl, iff_of_true rfl (.inl ⟨answer, rfl⟩), fun _ he => by cases he⟩
  | failed error =>
    cases howned : saysOwned error with
    | true =>
      simp only [howned, if_true]
      exact ⟨rfl, iff_of_true rfl (.inr ⟨error, rfl, howned⟩), fun _ he => by cases he⟩
    | false =>
      simp only [howned, Bool.false_eq_true, if_false]
      refine ⟨world_giveUp, iff_of_false (fun hok => ?_) ?_,
        fun _ he => ⟨error, rfl, explains_of_giveUp he⟩⟩
      · obtain ⟨_, hthrown⟩ := exists_outcome_giveUp console _ bucket error u
        cases hthrown.symm.trans hok
      · rintro (⟨answer, hreply⟩ | ⟨e, hreply, hsays⟩)
        · cases hreply
        · cases hreply
          exact Bool.noConfusion (howned.symm.trans hsays)

/-- The name of a bucket without a percent sign makes no difference between consoles. -/
theorem ensureBucketOn_eq (h : Text.unit '%' ∉ bucket) (console : Console) (s : Session) :
    ensureBucketOn console bucket s = ensureBucket bucket s := by
  have hline : Text.unit '%' ∉ ("Bucket access validation failed:" : Text) := by decide +kernel
  unfold ensureBucket ensureBucketOn createBucketOn
  simp only [giveUp_of_plain hline, giveUp_of_plain (not_mem_creationLine h)]

theorem exists_ensures (console : Console) (bucket : Text) (s : Session) :
    ∃ talk, Ensures console bucket s talk (ensureBucketOn console bucket s) := by
  rcases h : s.send (.head bucket) with ⟨reply, t⟩
  have htalks := talks_of_send h
  unfold ensureBucketOn
  rw [h]
  cases reply with
  | answered answer =>
    refine ⟨_, htalks, .inl rfl, ?_, iff_of_true rfl (.inl ⟨answer, List.mem_cons_self⟩),
      fun _ he => by cases he⟩
    simp
  | failed error =>
    cases hmissing : saysMissing error with
    | false =>
      have hnot : ¬ Missing error := fun hsays =>
        Bool.noConfusion (hmissing.symm.trans ((saysMissing_iff error).2 hsays))
      have hline : Text.unit '%' ∉ ("Bucket access validation failed:" : Text) := by
        decide +kernel
      simp only [hmissing, Bool.false_eq_true, if_false, giveUp_of_plain hline]
      refine ⟨_, htalks, .inl rfl, ?_, ?_, fun _ he => ?_⟩
      · simpa using hnot
      · simp
      · cases he
        exact ⟨_, error, rfl, .inl (error.asStorage_standsFor _ _)⟩
    | true =>
      have hsays := (saysMissing_iff error).1 hmissing
      rcases hcreate : t.send (.create bucket) with ⟨answer, u⟩
      obtain ⟨hworld, hresolves, hexplains⟩ := createBucketOn_of_send console hcreate
      simp only [hmissing, if_true]
      refine ⟨_, hworld ▸ htalks.trans (talks_of_send hcreate), .inr rfl, ?_, ?_,
        fun e he => ?_⟩
      · simpa using hsays
      · rw [hresolves]
        simp only [saysOwned_iff]
        simp [eq_comm]
      · obtain ⟨cause, rfl, hcause⟩ := hexplains e he
        exact ⟨_, cause, rfl, hcause⟩

/-! ## All calls -/

/-- Every call of the client resolves or throws a storage error.  What a command throws ends a call
that puts, gets or lists objects: the error is the thrown value, if that is a storage error, or has
it as its cause, and it counts as worth repeating when the value does.  So does the error of a
bucket that cannot be had, unless the line about it, with a percent sign in the name of the bucket,
cannot be printed.  The bucket is made exactly when an error says that it is missing. -/
theorem calls_report (s : Session) :
    (∀ task, ∃ talk, Reports (Puts task) s talk (put task s).1 (put task s).2) ∧
      (∀ task, ∃ talk, Reports (Gets task) s talk (get task s).1 (get task s).2) ∧
      (∀ bucket start, ∃ talk, Reports (Lists bucket start) s talk (list bucket start s).outcome
        (list bucket start s).world) ∧
      ∀ console bucket, ∃ talk, Ensures console bucket s talk (ensureBucketOn console bucket s) :=
  ⟨fun task => exists_reports_put task s, fun task => exists_reports_get task s,
    fun bucket start => exists_reports_list bucket start s,
    fun console bucket => exists_ensures console bucket s⟩

/-- A service with one reply for the bucket that is asked for and one for the bucket to be made. -/
def replying (head creation : Reply) : Session :=
  ⟨⟨["work"], .empty⟩, ⟨[head], [creation], [], .empty, .empty, none, true⟩, []⟩

/-- A value that is no error says nothing by the name that it has: the bucket is not made.  And the
name of a bucket may ask for a form that what was thrown cannot take: then the error of a bucket
that cannot be had is no storage error. -/
theorem not_calls_report :
    (let named : Thrown := .datum (.record [("name", .text "NotFound")])
      let ran := ensureBucket "c" (replying (.failed named) (.answered .plain))
      ran.world.sent.map Sent.command = [.head "c"] ∧ ran.outcome ≠ .ok ()) ∧
    let missing : Thrown := .plain .general ⟨"NotFound", [], none, none⟩
    let bare : Thrown := .object [] none
    ∃ error, (ensureBucketOn .formatting "%d" (replying (.failed missing) (.failed bare))).outcome =
      .error error ∧ error.isStorage = false := by
  refine ⟨⟨rfl, fun hok => ?_⟩, Console.noNumber, rfl, rfl⟩
  cases hok

end Session

end BulkTransfer
