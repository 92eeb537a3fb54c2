import Overrides.Proofs.Rule.Grammar
import Overrides.Proofs.Server.Faults
import Overrides.Proofs.Service.Submission
import Overrides.Proofs.Store.Counters

/-!
# `Overrides.Proofs.Server.Submitting`: the answer to a submission

A submission passes many gates, and the event is filled in on the way, from
the draft as it was sent. The rule is made later, from the draft as it was
validated, and is written before the answer is. So it has to be shown that
the key in the event is that of the rule, and that what was written can be
shown: a success would otherwise be answered as a failure.

* `Server.answer_submit`: all that can become of a submission.
* `Backend.gains_of_write`: what a store has gained after a write.
* `Backend.Clocked.exists_toJson?`: what was written can be shown.
* `submission_answered_truthfully`: the answer and the store.
-/

set_option autoImplicit false

namespace Overrides

open Overrides.Text

/-! ### What a store gains -/

/-- The store has one record more, and it says that the rule was written. On
disk it is the row that says so, by the text of the rule that it keeps. -/
inductive Backend.Gains : Backend → Rule → Backend → Prop where
  | memory {l next : Ledger} {rule : Rule} {record : AuditRecord} :
      record.ruleKey = rule.key → record.after = rule → next.records = record :: l.records →
      Gains (.memory l) rule (.memory next)
  | disk {d next : Database} {rule : Rule} {row : AuditRow} :
      row.key = rule.key.text → decodeRule row.after = .ok rule →
      next.records = row :: d.records → Gains (.disk d) rule (.disk next)

namespace Database

/-- After a commit, its rule is found under its key, and what the other keys
give is what they gave. -/
theorem get?_commit {d : Database} {w : Written} {id : Int} {text : List UInt8}
    {old : Option (List UInt8)} (hvalid : w.rule.content.Valid)
    (htext : encodeRule w.rule = .ok text) (key : RuleKey) :
    (d.commit w id text old).get? key
      = if w.rule.key = key then .ok (some w.rule) else d.get? key := by
  have hstorable := Rule.storable_of_encodeRule hvalid htext
  have hrow : RuleRow.ofRule w.rule text = w.rule.row := Rule.ofRule_of_encodeRule htext
  rw [get?, get?, commit]
  dsimp only
  -- Rows are found by the texts of keys, which tell the keys apart.
  have hkeys : w.rule.row.key = key.text ↔ w.rule.key = key := RuleKey.text_inj
  rw [hrow, (putsByKey_putRow _).find?]
  by_cases hkey : w.rule.key = key
  · rw [if_pos hkey, if_pos (hkeys.mpr hkey)]
    show some <$> w.rule.row.rule = _
    rw [hstorable.rule_row]
    rfl
  · rw [if_neg hkey, if_neg (mt hkeys.mp hkey)]

end Database

namespace Backend

variable {s next : Backend} {request : WriteRequest} {w : Written}

/-- A write that succeeds adds one record, and puts its rule under its key; what
the other keys give stays. -/
theorem gains_of_write (hvalid : request.content.Valid)
    (h : RuleStore.write s request = (.ok w, next)) :
    s.Gains w.rule next ∧ w.rule.updatedBy = request.actor ∧ w.rule.key = request.key ∧
      ∀ key, RuleStore.get? next key
        = if w.rule.key = key then .ok (some w.rule) else RuleStore.get? s key := by
  obtain ⟨l, rfl, -, hrule, rfl⟩ |
      ⟨d, before, revision, id, text, old, rfl, -, -, -, hrule, htext, rfl⟩ := of_write_ok h
  -- In memory the rule is kept as it is.
  · have hrecord : (l.nextRecord request).ruleKey = w.rule.key := by
      rw [hrule]
      rfl
    refine ⟨.memory hrecord hrule.symm rfl, ?_, ?_, fun key => ?_⟩
    · rw [hrule]
      exact WriteRequest.updatedBy_rule ..
    · rw [hrule]
      exact Ledger.key_nextRule ..
    · show Except.ok ((Ledger.putRule _ l.rules).find? _) = _
      rw [(Ledger.putsByKey_putRule _).find?, ← hrule]
      split <;> rfl
  -- On disk its text is kept, which decodes to it.
  · have hcontent : w.rule.content.Valid := by
      rw [hrule, WriteRequest.content_rule]
      exact hvalid
    have hstorable := Rule.storable_of_encodeRule hcontent htext
    refine ⟨.disk rfl ?_ rfl, ?_, ?_, fun key => Database.get?_commit hcontent htext key⟩
    · show decodeRule text = _
      rw [← hstorable.decodeRule_text, Rule.text, htext]
      rfl
    · rw [hrule]
      exact WriteRequest.updatedBy_rule ..
    · rw [hrule]
      exact WriteRequest.key_rule ..

/-- So does a submission that succeeds. Validation makes of the key what an event
makes of it. -/
theorem gains_of_submit {service : Service} {draft : Draft} {actor : Option String}
    {time : Instant} (h : service.submit s draft actor time = (.ok w, next)) :
    s.Gains w.rule next ∧ w.rule.updatedBy = actor ∧ w.rule.key.text = trim draft.ruleKey ∧
      ∀ key, RuleStore.get? next key
        = if w.rule.key = key then .ok (some w.rule) else RuleStore.get? s key := by
  obtain ⟨request, hrequest, hwrite⟩ := Service.write_of_submit h
  obtain ⟨content, hvalid, rfl⟩ := requestOf_eq_ok hrequest
  obtain ⟨hgains, hactor, hkey, hget⟩ := gains_of_write (Content.valid_of_validate hvalid) hwrite
  obtain ⟨hparse, -⟩ := Draft.validate_eq_ok_iff.mp hvalid
  refine ⟨hgains, hactor, ?_, hget⟩
  rw [hkey, ← (RuleKey.parse_eq_ok_iff.mp hparse).1]
  rfl

end Backend

/-! ### What was written can be shown -/

/-- A rule that replaces another one keeps the instant of its creation. -/
theorem WriteRequest.createdAt_rule (request : WriteRequest) (before : Option Rule)
    (revision : UInt64) :
    (request.rule before revision).createdAt = (before.map Rule.createdAt).getD request.time := by
  cases before <;> rfl

/-- When the rules were created can be written. -/
def Ledger.Dated (l : Ledger) : Prop := ∀ r ∈ l.rules, r.createdAt.HasWrittenForm

/-- The rule of a write was created when the rule before it was, or now. -/
theorem Ledger.Dated.nextRule {l : Ledger} (h : l.Dated) {request : WriteRequest}
    (htime : request.time.HasWrittenForm) : (l.nextRule request).createdAt.HasWrittenForm := by
  rw [Ledger.nextRule, WriteRequest.createdAt_rule]
  cases hbefore : l.get? request.key with
  | none => exact htime
  | some old => exact h old (List.mem_of_find?_eq_some hbefore)

/-- A write at such a time leaves all rules created at such times. -/
theorem Ledger.Dated.next {l : Ledger} (h : l.Dated) {request : WriteRequest}
    (htime : request.time.HasWrittenForm) : (l.next request).Dated := by
  intro r hr
  obtain rfl | hold := (Ledger.putsByKey_putRule _).mem hr
  · exact h.nextRule htime
  · exact h r hold

namespace Backend

/-- The states of a store whose clock shows years that can be written: a new
one, one after a write at such a time, and a database with whatever tables. -/
inductive Clocked : Backend → Prop where
  | fresh {s : Backend} : s.Fresh → Clocked s
  | write {s : Backend} {request : WriteRequest} : Clocked s → request.time.HasWrittenForm →
      Clocked (RuleStore.write s request).2
  | altered (d : Database) : Clocked (.disk d)

variable {s next : Backend} {request : WriteRequest} {w : Written}

/-- In memory, the rules were created at such times. The induction is on the
writes; one that fails changes nothing. -/
theorem Clocked.dated (h : s.Clocked) : ∀ l, s = .memory l → l.Dated := by
  induction h with
  | fresh hfresh =>
    rintro l rfl
    cases hfresh
    exact fun _ hr => nomatch hr
  | @write s request _ htime ih =>
    intro l hl
    cases s with
    | disk d => exact nomatch hl
    | memory before =>
      have hdated := ih before rfl
      obtain rfl : (before.write request).2 = l := Backend.memory.inj hl
      by_cases hroom : before.lastRevision.toNat + 1 < UInt64.size
      · rw [Ledger.write_eq hroom]
        exact hdated.next htime
      · rw [Ledger.write_of_exhausted hroom]
        exact hdated
  | altered d => exact fun _ hl => nomatch hl

/-- What was written has a wire form: on disk it could not have been written
otherwise, and in memory its two instants can be. -/
theorem Clocked.exists_toJson? (hs : s.Clocked) (htime : request.time.HasWrittenForm)
    (h : RuleStore.write s request = (.ok w, next)) : ∃ v, w.rule.toJson? = some v := by
  obtain ⟨l, rfl, -, hrule, -⟩ | ⟨d, before, revision, id, text, old, rfl, -, -, -, -, htext, -⟩ :=
    of_write_ok h
  · obtain ⟨createdAt, hcreated, -⟩ := ((hs.dated l rfl).nextRule htime).exists_toJson?
    obtain ⟨updatedAt, hupdated, -⟩ := htime.exists_toJson?
    refine ⟨_, Rule.toJson?_eq_some_iff.mpr ⟨createdAt, updatedAt, ?_, ?_, rfl⟩⟩
    · rw [hrule]
      exact hcreated
    · rw [hrule, Ledger.nextRule, WriteRequest.updatedAt_rule]
      exact hupdated
  · obtain ⟨v, hv, -⟩ := encodeRule_eq_ok_iff.mp htext
    exact ⟨v, hv⟩

end Backend

/-! ### The gates of a submission -/

/-- The request comes to the store with this draft, under this actor: its caller
is let in, its body is not too long, and the body can be read as a draft. -/
structure Request.Submits (r : Request) (server : Server) (draft : Draft) (actor : String) :
    Prop where
  caller : ∃ i named, r.Admitted server.auth i ∧ normalizeActor (r.header? actorHeader) = .ok named ∧
    actor = i.actor named
  size : r.body.length ≤ server.maxBodyBytes
  body : Draft.ofBytes r.body = .ok draft

namespace Server

variable {server : Server} {s : Backend} {r : Request} {time : Instant}

/-- What is noted of a submission that comes to the store. -/
def submissionNote (r : Request) (draft : Draft) (actor : String) : Note :=
  ⟨none, some (trim draft.ruleKey), some actor, r.body.length⟩

/-- The body of a request is given on, and its bytes are noted. -/
theorem on_body {σ : Type} (server : Server) (r : Request) (n : Note) (s : σ) :
    (server.body r).on (n, s)
      = if server.maxBodyBytes < r.body.length then (.error .bodyTooLarge, n, s)
        else (.ok r.body, { n with bytes := r.body.length }, s) := by
  rw [body]
  split <;> rfl

/-- The faults that a submission is refused with before the store is asked. -/
inductive Refuses : RequestFault → Prop where
  | auth (e : AuthFault) : Refuses (.auth e)
  | bodyTooLarge : Refuses .bodyTooLarge
  | badBody (e : Json.Fault) : Refuses (.badBody e)
  | badActor (e : ActorFault) : Refuses (.badActor e)

/-- A submission is refused before the store is asked, or it comes to the store
and is answered with what the service makes of it. -/
theorem on_submit (server : Server) (s : Backend) (r : Request) (time : Instant) :
    (∃ e note, (server.submit r time).on (Note.empty, s) = (.error e, note, s) ∧
      Refuses e) ∨
    ∃ draft actor, r.Submits server draft actor ∧
      let run := server.service.submit s draft (some actor) time
      (server.submit r time).on (Note.empty, s)
        = (deliver run.1 (fun w => w.rule.toJson?), submissionNote r draft actor, run.2) := by
  -- One gate after the other: each of them stops the run with a fault of its own.
  rw [submit, authorize, Handler.on_check_bind]
  cases hadmitted : server.auth.authorize (some r.peer) (r.header? "authorization") with
  | error e => exact .inl ⟨_, _, rfl, .auth e⟩
  | ok i =>
    dsimp only
    rw [Handler.on_bind, on_body]
    by_cases hsize : server.maxBodyBytes < r.body.length
    · rw [if_pos hsize]
      exact .inl ⟨_, _, rfl, .bodyTooLarge⟩
    · rw [if_neg hsize]
      dsimp only
      rw [Handler.on_check_bind]
      cases hbody : Draft.ofBytes r.body with
      | error e => exact .inl ⟨_, _, rfl, .badBody e⟩
      | ok draft =>
        dsimp only
        rw [Handler.on_bind, Handler.on_note]
        dsimp only
        rw [Handler.on_check_bind]
        cases hnamed : normalizeActor (r.header? actorHeader) with
        | error e => exact .inl ⟨_, _, rfl, .badActor e⟩
        | ok named =>
          refine .inr ⟨draft, i.actor named, ⟨⟨i, named, hadmitted, hnamed, rfl⟩,
            Nat.le_of_not_lt hsize, hbody⟩, ?_⟩
          -- Behind the last gate, the store is set before the outcome is looked at.
          dsimp only
          rw [Handler.on_bind, Handler.on_note]
          dsimp only
          rw [Handler.on_bind, Handler.on_get]
          dsimp only
          rw [Handler.on_bind, Handler.on_set]
          dsimp only
          rw [on_deliver]
          rfl

/-- What refuses a request before the service is asked has one of three
statuses. -/
theorem Refuses.status {e : RequestFault} (h : Refuses e) : e.status ∈ [400, 401, 413] := by
  cases h <;> simp [RequestFault.status]

/-- A fault of the service is shown as 400 or 500, whatever it is. -/
theorem status_service (e : ServiceFault) : (RequestFault.service e).status ∈ [400, 500] := by
  cases e with
  | rule _ => exact List.mem_cons_self ..
  | ruleLimitReached _ => exact List.mem_cons_self ..
  | tooManyRules _ _ => exact List.mem_cons_of_mem _ (List.mem_cons_self ..)
  | store cause =>
    show (if cause.kind = .invalid then 400 else 500) ∈ [400, 500]
    split <;> decide

/-- The answer to a submission: a fault and the store as it was, or what was
written, if it can be shown, and the store that it was written to. -/
theorem answer_submit (server : Server) (s : Backend) (time : Instant) (hpath : r.path = submitPath)
    (hmethod : r.method = "PUT" ∨ r.method = "POST") :
    (∃ e note, server.answer s r time
        = (r.reply (.error e), some (r.event (.error e) note), s) ∧
      e.status ∈ [400, 401, 413, 500]) ∨
    ∃ draft actor w next, r.Submits server draft actor ∧
      server.service.submit s draft (some actor) time = (.ok w, next) ∧
      let outcome := deliver (.ok w) fun w : Written => w.rule.toJson?
      server.answer s r time
        = (r.reply outcome, some (r.event outcome (submissionNote r draft actor)), next) := by
  have hanswer := @answer_of_handled _ _ server s r time
    (Request.Administers.submit hpath hmethod).not_missed
  rw [hpath, Route.ofPath_submitPath] at hanswer
  dsimp only [handler] at hanswer
  obtain ⟨e, note, hrun, he⟩ | ⟨draft, actor, hsubmits, hrun⟩ := on_submit server s r time
  · rw [hrun] at hanswer
    have hstatuses : [400, 401, 413] ⊆ [400, 401, 413, 500] := by decide
    exact .inl ⟨e, note, hanswer, hstatuses he.status⟩
  · rw [hrun] at hanswer
    cases houtcome : server.service.submit s draft (some actor) time with
    | mk outcome next =>
      rw [houtcome] at hanswer
      cases outcome with
      | error e =>
        -- The handler sets the store also after a failure, but to what it was.
        have hsame := Service.eq_of_submit_error (congrArg Prod.fst houtcome)
        rw [houtcome] at hsame
        obtain rfl : next = s := hsame
        have hstatuses : [400, 500] ⊆ [400, 401, 413, 500] := by decide
        exact .inl ⟨_, _, hanswer, hstatuses (status_service e)⟩
      | ok w => exact .inr ⟨draft, actor, w, next, hsubmits, houtcome, hanswer⟩

/-! ### The answer -/

/-- The answer tells the truth about the store before it and after it. The
answer is the response and the event together, and they may not contradict each
other either. -/
structure Truthful (r : Request) (s : Backend) (response : Response) (event : RequestEvent)
    (next : Backend) : Prop where
  status : event.status = response.status
  known : response.status ∈ [200, 400, 401, 413, 500]
  /-- After a failure the store is the same. -/
  failure : response.status ≠ 200 → next = s
  /-- A success shows the rule that the store has gained, and the event names the
  key and the writer of that rule, and the bytes of the request. -/
  success : response.status = 200 → ∃ rule v, s.Gains rule next ∧ rule.toJson? = some v ∧
    response.body = some (.object [("data", v), ("success", .bool true)]) ∧
    (∀ key, RuleStore.get? next key
      = if rule.key = key then .ok (some rule) else RuleStore.get? s key) ∧
    event.note.ruleKey = some rule.key.text ∧ event.note.actor = rule.updatedBy ∧
    event.note.bytes = r.body.length

variable {next : Backend} {note : Note} {e : RequestFault}

/-- A failure is told truly where the store is the same. -/
theorem truthful_error (h : e.status ∈ [400, 401, 413, 500]) :
    Truthful r s (r.reply (.error e)) (r.event (.error e) note) s where
  status := rfl
  known := List.mem_cons_of_mem _ h
  failure := fun _ => rfl
  success := fun hstatus => absurd hstatus e.status_ne_ok

/-- What was written is told truly. The event has the key and the writer of the
rule because they were noted before the service was asked. -/
theorem truthful_written {draft : Draft} {actor : String} {w : Written}
    (hs : s.Clocked) (htime : time.HasWrittenForm) (hhead : r.method ≠ "HEAD")
    (h : server.service.submit s draft (some actor) time = (.ok w, next)) :
    ∃ v, w.rule.toJson? = some v ∧
      Truthful r s (r.reply (.ok v)) (r.event (.ok v) (submissionNote r draft actor)) next := by
  obtain ⟨request, hrequest, hwrite⟩ := Service.write_of_submit h
  obtain ⟨content, -, rfl⟩ := Backend.requestOf_eq_ok hrequest
  obtain ⟨v, hv⟩ := hs.exists_toJson? htime hwrite
  obtain ⟨hgains, hactor, hkey, hget⟩ := Backend.gains_of_submit h
  exact ⟨v, hv, rfl, List.mem_cons_self .., fun hne => absurd rfl hne, fun _ =>
    ⟨w.rule, v, hgains, hv, if_neg hhead, hget, congrArg some hkey.symm, hactor.symm, rfl⟩⟩

end Server

/-- **The answer to a submission tells the truth about the store.** Take any
server and any store of either kind: in memory after any writes at times in the
years that can be written, and on disk whatever the tables hold. Take any
submission by `PUT` or `POST`, whatever its headers and its body. If the status
is 200, one record was added, the response shows the rule that it was added for,
and that rule is now the one of its key; what the other keys give is unchanged.
The event has the key of this rule, who wrote it, and how long the body was. If
the status is any other one, the store is in the state that it was in. -/
theorem submission_answered_truthfully (server : Server) (s : Backend) (r : Request)
    (time : Instant) (hs : s.Clocked) (htime : time.HasWrittenForm) (hpath : r.path = submitPath)
    (hmethod : r.method = "PUT" ∨ r.method = "POST") :
    ∃ response event next, server.answer s r time = (response, some event, next) ∧
      Server.Truthful r s response event next := by
  obtain ⟨e, note, hanswer, hstatus⟩ | ⟨draft, actor, w, next, -, hsubmit, hanswer⟩ :=
    Server.answer_submit server s time hpath hmethod
  · exact ⟨_, _, _, hanswer, Server.truthful_error hstatus⟩
  · -- The rule was written, and it can be shown, so the status is no failure.
    have hhead := (Request.Administers.submit hpath hmethod).method_ne_head
    obtain ⟨v, hv, htruthful⟩ := Server.truthful_written hs htime hhead hsubmit
    dsimp only [Server.deliver] at hanswer
    rw [hv] at hanswer
    exact ⟨_, _, _, hanswer, htruthful⟩

/-- This host submits a rule, with blanks around the key and under a name. -/
def calmSubmission : Request where
  method := "PUT"
  path := submitPath
  query := ""
  headers := [("X-Divine-Guard-Actor", Utf8.encode "Ops")]
  body := Utf8.encode
    "\x7b\"rule_key\":\" calm-feed \",\"scope\":\"ux\",\"enabled\":true\x7d"
  peer := .v4 127 0 0 1

/-- It is written to a new store, and that is told. The status is computed by a
run of the server, and the rest is the theorem at this store and this request.
-/
theorem calmSubmission_written :
    ∃ response event next,
      hostServer.answer (Backend.memory .empty) calmSubmission ⟨0, 0⟩
        = (response, some event, next) ∧
      response.status = 200 ∧
      Server.Truthful calmSubmission (.memory .empty) response event next := by
  have hyear : Instant.HasWrittenYear ⟨0, 0⟩ := show 0 ≤ _ ∧ _ ≤ 9999 by decide +kernel
  have htime : Instant.HasWrittenForm ⟨0, 0⟩ := ⟨hyear, show _ < 1440 by decide⟩
  have hstatus : (hostServer.answer (Backend.memory .empty) calmSubmission ⟨0, 0⟩).1.status = 200 :=
    by decide +kernel
  obtain ⟨response, event, next, hanswer, htruthful⟩ :=
    submission_answered_truthfully hostServer (.memory .empty) calmSubmission ⟨0, 0⟩
      (.fresh .memory) htime rfl (.inl rfl)
  rw [hanswer] at hstatus
  exact ⟨response, event, next, hanswer, hstatus, htruthful⟩

end Overrides
