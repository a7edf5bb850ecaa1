import Mathlib.Data.List.ReduceOption
import BulkTransfer.Proofs.Bucket.Talk

/-!
# Listings page by page

A listing asks for one page after the other, each time with the token of the page before, until a
reply ends it: a page that names no further one, or a failure (`readPages_of_script`).  So it gives
the keys of all pages, or nothing but an error, and leaves the replies after the end unread
(`list_reads_to_end`).
-/

namespace BulkTransfer

/-! ## Pages and replies that end a listing -/

/-- A page after which there is none: it is not truncated, or names no page to go on with. -/
def Page.IsLast (p : Page) : Prop :=
  p.truncated = false ∨ p.nextToken = none ∨ p.nextToken = some []

instance (p : Page) : Decidable p.IsLast := inferInstanceAs (Decidable (_ ∨ _))

/-- A reply that ends a listing. -/
inductive Reply.Ends : Reply → Prop
  | failed (error : Thrown) : Ends (.failed error)
  | last {answer : Answer} (h : answer.page.IsLast) : Ends (.answered answer)

/-- What a reply that ends a listing adds to it. -/
def Reply.ending : Reply → Except Thrown (List Text)
  | .failed error => .error error
  | .answered answer => .ok answer.page.names

namespace Page

variable {p : Page}

theorem continuation_of_isLast (h : p.IsLast) : p.continuation = none := by
  unfold continuation
  rcases h with htruncated | htoken | htoken
  · rw [htruncated]
    rfl
  all_goals rw [htoken]; simp

theorem continuation_of_not_isLast (h : ¬ p.IsLast) :
    ∃ token, p.nextToken = some token ∧ p.continuation = some token := by
  unfold IsLast at h
  rw [not_or, not_or, Bool.not_eq_false] at h
  obtain ⟨htruncated, hsome, hne⟩ := h
  obtain ⟨token, htoken⟩ := Option.ne_none_iff_exists'.1 hsome
  refine ⟨token, htoken, ?_⟩
  have hnonempty : token ≠ [] := by
    rintro rfl
    exact hne htoken
  unfold continuation
  rw [htruncated, htoken]
  simpa using hnonempty

/-- The keys of pages that are there and not empty. -/
def keysOf (pages : List Page) : List Text :=
  (pages.flatMap Page.keys).reduceOption.filter fun key => !key.isEmpty

theorem names_eq_keysOf (p : Page) : p.names = keysOf [p] := by
  unfold names keysOf
  rw [List.flatMap_singleton]
  induction p.keys with
  | nil => rfl
  | cons key rest ih =>
    cases key with
    | none => simpa using ih
    | some name =>
      rw [List.reduceOption_cons_of_some, List.filterMap_cons, List.filter_cons, ih]
      cases name <;> rfl

theorem keysOf_append (pages more : List Page) :
    keysOf (pages ++ more) = keysOf pages ++ keysOf more := by
  unfold keysOf
  rw [List.flatMap_append, List.reduceOption_append, List.filter_append]

end Page

namespace Session

variable {bucket : Text} {start token : Option Text} {s t : Session}

/-! ## Reading pages -/

/-- The commands of a listing with their replies, from a token on: each later command has the token
of the page before it. -/
def exchanges (bucket : Text) (start token : Option Text) (answers : List Answer) (last : Reply) :
    Talk :=
  ((token :: answers.map fun answer => answer.page.nextToken).map (.list bucket start)).zip
    (answers.map .answered ++ [last])

theorem exchanges_cons (answer : Answer) (answers : List Answer) (last : Reply) :
    exchanges bucket start token (answer :: answers) last =
      (.list bucket start token, .answered answer) ::
        exchanges bucket start answer.page.nextToken answers last := rfl

/-- The session after some exchanges that left only later pages to read. -/
def afterReading (s : Session) (talk : Talk) (rest : List Reply) : Session :=
  { s with remote := { s.remote with pages := rest }, sent := s.sent ++ talk.map Sent.ofReply }

theorem afterReading_afterReading (s : Session) (talk more : Talk) (rest later : List Reply) :
    (s.afterReading talk rest).afterReading more later = s.afterReading (talk ++ more) later := by
  simp [afterReading]

theorem send_list {reply : Reply} {rest : List Reply} (h : s.remote.pages = reply :: rest) :
    s.send (.list bucket start token) =
      (reply, s.afterReading [(.list bucket start token, reply)] rest) := by
  simp only [send, Remote.reply, h, Remote.take]
  rfl

theorem readPages_of_ends {last : Reply} (hends : last.Ends) (queue : Nat)
    (h : s.send (.list bucket start token) = (last, t)) :
    readPages bucket start queue token s = (last.ending, t) := by
  unfold readPages
  rw [h]
  cases hends with
  | failed error => rfl
  | @last answer hlast =>
    simp only [Page.continuation_of_isLast hlast]
    rfl

theorem readPages_of_not_isLast {answer : Answer} (hmore : ¬ answer.page.IsLast) (queue : Nat)
    (h : s.send (.list bucket start token) = (.answered answer, t)) :
    readPages bucket start (queue + 1) token s =
      let (rest, after) := readPages bucket start queue answer.page.nextToken t
      (rest.map (answer.page.names ++ ·), after) := by
  obtain ⟨next, hnext, hcontinuation⟩ := Page.continuation_of_not_isLast hmore
  rw [readPages, h]
  simp only [hcontinuation, hnext]

/-- Pages are read up to the reply that ends the listing, and none after it. -/
theorem readPages_of_script (bucket : Text) (start token : Option Text) {last : Reply}
    {rest : List Reply} (hends : last.Ends) (answers : List Answer)
    (hmore : ∀ answer ∈ answers, ¬ answer.page.IsLast) {queue : Nat}
    (hqueue : answers.length ≤ queue) {s : Session}
    (hscript : s.remote.pages = answers.map .answered ++ last :: rest) :
    readPages bucket start queue token s =
      (last.ending.map (Page.keysOf (answers.map Answer.page) ++ ·),
        s.afterReading (exchanges bucket start token answers last) rest) := by
  induction answers generalizing queue token s with
  | nil =>
    rw [readPages_of_ends hends queue (send_list hscript)]
    cases last.ending <;> rfl
  | cons answer answers ih =>
    obtain ⟨hfirst, hrest⟩ := List.forall_mem_cons.1 hmore
    obtain ⟨queue, rfl⟩ : ∃ n, queue = n + 1 := ⟨queue - 1, by simp at hqueue; omega⟩
    rw [List.length_cons, Nat.add_le_add_iff_right] at hqueue
    rw [readPages_of_not_isLast hfirst queue (send_list hscript)]
    dsimp only
    rw [ih _ hrest hqueue rfl, afterReading_afterReading]
    have hkeys : Page.keysOf ((answer :: answers).map Answer.page) =
        answer.page.names ++ Page.keysOf (answers.map Answer.page) := by
      rw [Page.names_eq_keysOf, ← Page.keysOf_append]
      rfl
    rw [hkeys]
    cases last.ending with
    | error error => rfl
    | ok names => simp [Except.map, exchanges_cons]

/-! ## Listings -/

theorem list_of_readPages {outcome : Except Thrown (List Text)}
    (h : readPages bucket start s.remote.pages.length none s = (outcome, t)) :
    list bucket start s = ⟨outcome.mapError fun e => e.asStorage (some bucket) none, t, []⟩ := by
  unfold list
  rw [h]

/-- Replies with an end among them are pages that are not the last, that end, and what is left. -/
theorem exists_script {replies : List Reply} (h : ∃ reply ∈ replies, reply.Ends) :
    ∃ (answers : List Answer) (last : Reply) (rest : List Reply),
      replies = answers.map .answered ++ last :: rest ∧
      (∀ answer ∈ answers, ¬ answer.page.IsLast) ∧ last.Ends := by
  induction replies with
  | nil => simp at h
  | cons reply replies ih =>
    by_cases hends : reply.Ends
    · exact ⟨[], reply, replies, rfl, by simp, hends⟩
    · cases reply with
      | failed error => exact absurd (.failed error) hends
      | answered answer =>
        obtain ⟨found, hfound, hfends⟩ := h
        have hlater : found ∈ replies := by
          rcases List.mem_cons.1 hfound with rfl | hfound
          · exact absurd hfends hends
          · exact hfound
        obtain ⟨answers, last, rest, rfl, hmore, hlast⟩ := ih ⟨found, hlater, hfends⟩
        exact ⟨answer :: answers, last, rest, rfl,
          List.forall_mem_cons.2 ⟨fun hpage => hends (.last hpage), hmore⟩, hlast⟩

/-- A listing whose script of replies has an end asks once for each page up to that end and no
further: first without a token, then each time with the token of the page before, and always for the
same bucket and key prefix.  When the end is a page, the listing gives the keys of all pages read,
in their order, without those that are missing or empty.  When it is a failure, the listing throws a
storage error that stands for it. -/
theorem list_reads_to_end (bucket : Text) (start : Option Text) (s : Session)
    (h : ∃ reply ∈ s.remote.pages, reply.Ends) :
    ∃ (answers : List Answer) (last : Reply) (rest : List Reply),
      s.remote.pages = answers.map .answered ++ last :: rest ∧
      (∀ answer ∈ answers, ¬ answer.page.IsLast) ∧ last.Ends ∧
      (list bucket start s).world =
        { s with
          remote := { s.remote with pages := rest }
          sent := s.sent ++ (exchanges bucket start none answers last).map Sent.ofReply } ∧
      (list bucket start s).events = [] ∧
      (∀ answer, last = .answered answer → (list bucket start s).outcome =
        .ok (Page.keysOf ((answers ++ [answer]).map Answer.page))) ∧
      ∀ error, last = .failed error →
        ∃ e, (list bucket start s).outcome = .error e ∧ e.StandsFor error := by
  obtain ⟨answers, last, rest, hscript, hmore, hends⟩ := exists_script h
  have hqueue : answers.length ≤ s.remote.pages.length := by simp [hscript]
  have hlist := list_of_readPages
    (readPages_of_script bucket start none hends answers hmore hqueue hscript)
  rw [hlist]
  refine ⟨answers, last, rest, hscript, hmore, hends, rfl, rfl, ?_, ?_⟩
  · rintro answer rfl
    rw [List.map_append, Page.keysOf_append, List.map_singleton, ← Page.names_eq_keysOf]
    rfl
  · rintro error rfl
    exact ⟨_, rfl, error.asStorage_standsFor (some bucket) none⟩

/-- Of three replies the second is the last page of a listing, for all that it has a token, and the
third is left unread. -/
theorem list_reads_to_end_two_pages :
    let first : Answer := ⟨⟨[some "a", some [], none], true, some "next"⟩, .unreadable⟩
    let second : Answer := ⟨⟨[some "b"], false, some "more"⟩, .unreadable⟩
    let unread : Reply := .failed .undefined
    let remote : Remote :=
      ⟨[], [], [.answered first, .answered second, unread], ⟨[]⟩, ⟨[]⟩, none, true⟩
    let s : Session := ⟨⟨[], ⟨[]⟩⟩, remote, []⟩
    (∃ reply ∈ s.remote.pages, reply.Ends) ∧
      (list "c" (some "p/") s).outcome = .ok ["a", "b"] ∧
      (list "c" (some "p/") s).world.remote.pages = [unread] ∧
      (list "c" (some "p/") s).world.sent =
        [⟨.list "c" (some "p/") none, true⟩, ⟨.list "c" (some "p/") (some "next"), true⟩] := by
  intro first second unread remote s
  have hsecond : second.page.IsLast := .inl rfl
  have hfirst : ¬ first.page.IsLast := by decide +kernel
  have hends : ∃ reply ∈ s.remote.pages, reply.Ends :=
    ⟨.answered second, by simp [s, remote], .last hsecond⟩
  obtain ⟨answers, last, rest, hscript, hmore, hlast, hworld, -, hok, -⟩ :=
    list_reads_to_end "c" (some "p/") s hends
  -- The first page does not end the script, and the second does.
  rcases answers with _ | ⟨a, _ | ⟨b, more⟩⟩
  · obtain ⟨rfl, -⟩ := List.cons.inj hscript
    cases hlast with
    | last h => exact absurd h hfirst
  · obtain ⟨ha, hscript⟩ := List.cons.inj hscript
    obtain ⟨rfl, rfl⟩ := List.cons.inj hscript
    cases ha
    refine ⟨hends, (hok second rfl).trans (congrArg Except.ok (by decide +kernel)), ?_, ?_⟩
    · rw [hworld]
    · rw [hworld]
      rfl
  · obtain ⟨-, hscript⟩ := List.cons.inj hscript
    obtain ⟨hb, -⟩ := List.cons.inj hscript
    cases hb
    exact absurd hsecond (hmore second (by simp))

end Session

end BulkTransfer
