import BulkTransfer.Proofs.Transfer.Rejecting
import BulkTransfer.Proofs.Transfer.Sending

/-!
# Uploads to a bucket service

A put changes neither the local files nor what the service has ready for other puts.  So each task
of an upload ends as its put would alone, right after the container was made, whatever the clock,
the observer and the number of workers (`upload_puts`).
-/

namespace BulkTransfer

namespace Session

variable {s t : Session}

/-! ## Puts do not meet -/

/-- Two sessions have the same files, and services that treat puts alike. -/
structure PutsAlike (s t : Session) : Prop where
  files : t.files = s.files
  puts : t.remote.puts = s.remote.puts
  exhausted : t.remote.exhausted = s.remote.exhausted
  drains : t.remote.drains = s.remote.drains

theorem PutsAlike.refl (s : Session) : PutsAlike s s := ⟨rfl, rfl, rfl, rfl⟩

theorem PutsAlike.trans {u : Session} (hst : PutsAlike s t) (htu : PutsAlike t u) :
    PutsAlike s u :=
  ⟨htu.files.trans hst.files, htu.puts.trans hst.puts, htu.exhausted.trans hst.exhausted,
    htu.drains.trans hst.drains⟩

theorem PutsAlike.reply_eq (h : PutsAlike s t) (bucket key : Text) (body : Option Bytes) :
    (t.send (.put bucket key body)).1 = (s.send (.put bucket key body)).1 := by
  simp only [send, Remote.reply, Remote.last, h.puts, h.exhausted]

theorem putsAlike_send (s : Session) (bucket key : Text) (body : Option Bytes) :
    PutsAlike s (s.send (.put bucket key body)).2 := ⟨rfl, rfl, rfl, rfl⟩

theorem putsAlike_sendFile (task : Task) (s : Session) : PutsAlike s (sendFile task s).2 := by
  rw [sendFile]
  cases s.files.stat task.localPath with
  | error e => exact .refl s
  | ok entry =>
    generalize s.files.read task.localPath = content
    have hsend := putsAlike_send s task.container task.objectName content.toOption
    rcases h : s.send (.put task.container task.objectName content.toOption) with ⟨reply, t⟩
    rw [h] at hsend
    simp only [h]
    cases reply with
    | failed error => exact hsend
    | answered answer =>
      cases content with
      | ok bytes => exact hsend
      | error e => cases hdrains : t.remote.drains <;> simpa [hdrains] using hsend

/-- How a put ends depends on the file and the reply alone. -/
theorem PutsAlike.sendFile_eq (h : PutsAlike s t) (task : Task) :
    (sendFile task t).1 = (sendFile task s).1 := by
  rw [sendFile, sendFile, h.files]
  cases s.files.stat task.localPath with
  | error e => rfl
  | ok entry =>
    generalize s.files.read task.localPath = content
    have hreply := h.reply_eq task.container task.objectName content.toOption
    rcases hs : s.send (.put task.container task.objectName content.toOption) with ⟨reply, s'⟩
    rcases ht : t.send (.put task.container task.objectName content.toOption) with ⟨other, t'⟩
    rw [hs, ht] at hreply
    obtain rfl : other = reply := hreply
    have hdrains : t'.remote.drains = s'.remote.drains :=
      calc t'.remote.drains
          = t.remote.drains := (congrArg (·.2.remote.drains) ht).symm
        _ = s.remote.drains := h.drains
        _ = s'.remote.drains := congrArg (·.2.remote.drains) hs
    simp only [hs, ht]
    cases other with
    | failed error => rfl
    | answered answer =>
      cases content with
      | ok bytes => rfl
      | error e => cases hd : s'.remote.drains <;> simp [hdrains, hd]

theorem putsAlike_put (task : Task) (s : Session) : PutsAlike s (put task s).2 :=
  putsAlike_sendFile task s

theorem fst_put (task : Task) (s : Session) : (put task s).1 =
    (sendFile task s).1.mapError fun e =>
      e.asStorage (some task.container) (some task.objectName) := rfl

theorem PutsAlike.put_eq (h : PutsAlike s t) (task : Task) : (put task t).1 = (put task s).1 := by
  rw [fst_put, fst_put, h.sendFile_eq]

/-- A result is the one that the put of its task gives in a session, but for its duration. -/
def IsPutIn (s : Session) (r : TransferResult) : Prop :=
  ∃ duration, r = .ofOutcome r.task (put r.task s).1 duration

theorem IsPutIn.succeeded_iff {r : TransferResult} (h : IsPutIn s r) :
    r.succeeded = true ↔ (put r.task s).1 = .ok () := by
  obtain ⟨duration, hr⟩ := h
  rw [hr, TransferResult.task_ofOutcome]
  cases (put r.task s).1 with
  | ok done => exact iff_of_true rfl rfl
  | error error => exact iff_of_false Bool.false_ne_true fun hok => by cases hok

/-! ## Batches of puts -/

/-- The puts of a batch leave alike what the others need, and none but its put ends a task. -/
theorem keeps_puts (clock : Clock) (tasks : List Task) (s : Session) :
    Pool.Keeps clock (tasks.map (Transfer.uploadJob transport))
      (fun t finished => PutsAlike s t ∧ ∀ x ∈ finished, IsPutIn s x.2) (fun _ _ _ => False)
      (fun _ flight => flight.finish = put flight.task) where
  call := fun hjob h => by
    obtain ⟨task, -, rfl⟩ := List.mem_map.1 (List.mem_of_getElem? hjob)
    exact h
  throws := fun hjob hl => by
    obtain ⟨task, -, rfl⟩ := List.mem_map.1 (List.mem_of_getElem? hjob)
    cases hl
  refused := fun hjob hl => by
    obtain ⟨task, -, rfl⟩ := List.mem_map.1 (List.mem_of_getElem? hjob)
    cases hl
  waits := fun hjob hl _ => by
    obtain ⟨task, -, rfl⟩ := List.mem_map.1 (List.mem_of_getElem? hjob)
    cases hl
    rfl
  ends_call := fun _ h => h
  ends_land := fun _ h => h
  conclude := fun h _ => h.elim
  land := fun {due t finished flight} hflies h => by
    rw [hflies]
    refine ⟨h.1.trans (putsAlike_put _ t), List.forall_mem_append.2 ⟨h.2, ?_⟩⟩
    refine List.forall_mem_singleton.2 ⟨clock.between flight.began due, ?_⟩
    rw [TransferResult.task_ofOutcome, h.1.put_eq]

end Session

namespace Transfer

variable {τ : Type} {host : Host} {request : Request} {s : Session} {tasks : List Task}

/-- An upload whose request is accepted, whose container is made and whose directory is enumerated
gives for each task the result of its put right after the container was made. -/
theorem upload_puts (observer : Observer τ)
    (hfault : fault? request.container (concurrencyOf host request).1 request.keyPrefix = none)
    (hprepared : (prepared Session.transport request s).outcome = .ok ())
    (htasks : (enumerated Session.transport request s .upload).outcome = .ok tasks) :
    ∃ results, (upload host Session.transport request observer s).outcome = .ok results ∧
      results.map TransferResult.task = tasks ∧
      ∀ r ∈ results, Session.IsPutIn (prepared Session.transport request s).world r := by
  have hupload : (upload host Session.transport request observer s).outcome =
      (Dispatch.run host.clock (tasks.map (uploadJob Session.transport))
        (concurrencyOf host request).1 observer
        (enumerated Session.transport request s .upload).world).outcome := by
    rw [upload, check_of_fault?_eq_none host hfault s]
    exact (Ran.outcome_andThen rfl).trans
      ((Ran.outcome_andThen hprepared).trans (Ran.outcome_andThen htasks))
  have hfinite := isFinite_of_fault?_eq_none hfault
  obtain ⟨results, hresults, hmap⟩ := Dispatch.exists_results_of_tasks host.clock
    (tasks.map (uploadJob Session.transport)) observer
    (enumerated Session.transport request s .upload).world hfinite
  have hstart : Session.PutsAlike (prepared Session.transport request s).world
      (enumerated Session.transport request s .upload).world := by
    rw [enumerated, ofDirectory_world]
    exact .refl _
  obtain ⟨found, finished, hfound, -, hget, -, hputs⟩ := Dispatch.exists_finished observer
    (Session.keeps_puts host.clock tasks _) ⟨hstart, fun _ h => absurd h List.not_mem_nil⟩ hfinite
  obtain rfl : results = found := Except.ok.inj (hresults.symm.trans hfound)
  refine ⟨results, hupload.trans hresults,
    hmap.trans (Dispatch.map_task_map (fun _ => rfl) tasks), fun r hr => ?_⟩
  obtain ⟨i, hi⟩ := List.getElem?_of_mem hr
  exact hputs _ ((hget i r).1 hi)

end Transfer

end BulkTransfer
