import Overrides.Server.Router

/-!
# `Overrides.Proofs.Server.Answers`: what every answer has

A handler is a program over notes and a store, and `Handler.on` runs it. The
equations below take such a run apart step by step. Whatever the outcome of
a handler is, `Request.reply` and `Request.event` are made from it, so the
response and the event agree.

A path that is known with a method that it does not have never comes to a
handler. It is answered with a bare status, and nothing is logged.

* `Handler.on_bind`: one step of a handler after the other.
* `Server.answer_of_handled`: the answer to a request that comes to a handler.
* `handled_requests_enveloped_and_logged`: every answer.
-/

set_option autoImplicit false

namespace Overrides

/-! ### Runs of handlers -/

namespace Handler

variable {σ α β ε : Type}

/-- What a handler makes of notes and a store: its outcome, and the notes and the store
afterwards. -/
def on (h : Handler σ α) (s : Note × σ) : Except RequestFault α × Note × σ := (ExceptT.run h).run s

/-- What follows runs on what the first part leaves, unless that one stops. Notes that
were taken before it stopped stay. -/
theorem on_bind (h : Handler σ α) (f : α → Handler σ β) (s : Note × σ) :
    on (h >>= f) s = match on h s with
      | (.ok a, next) => on (f a) next
      | (.error e, next) => (.error e, next) := by
  -- The two layers of the monad are opened here once, and nowhere else.
  unfold on ExceptT.run StateT.run
  simp only [bind, ExceptT.bind, ExceptT.mk, StateT.bind, ExceptT.bindCont]
  cases h s with
  | mk outcome next => cases outcome <;> rfl

/-- A check stops the handler, or what follows runs as if it were not there. It touches
neither the notes nor the store. -/
theorem on_check_bind (wrap : ε → RequestFault) (x : Except ε α) (f : α → Handler σ β)
    (s : Note × σ) : on (check wrap x >>= f) s = match x with
      | .ok a => on (f a) s
      | .error e => (.error (wrap e), s) := by
  cases x <;> rfl

/-- Taking a note changes the notes and not the store. -/
@[simp] theorem on_note (f : Note → Note) (s : Note × σ) :
    on (note f) s = (.ok (), f s.1, s.2) := rfl

/-- A handler may look at the notes and the store. -/
@[simp] theorem on_get (s : Note × σ) : on (get : Handler σ (Note × σ)) s = (.ok s, s) := rfl

/-- A handler may replace the notes and the store together. -/
@[simp] theorem on_set (t s : Note × σ) : on (set t : Handler σ Unit) s = (.ok (), t) := rfl

end Handler

/-! ### Routes, responses and events -/

/-- The snapshot has its own route. -/
theorem Route.ofPath_snapshotPath : ofPath snapshotPath = .snapshot := by decide

/-- Submissions have their own route. -/
theorem Route.ofPath_submitPath : ofPath submitPath = .submit := by decide

/-- The listing has its own route. -/
theorem Route.ofPath_listPath : ofPath listPath = .list := by decide

/-- The trail has its own route. -/
theorem Route.ofPath_trailPath : ofPath trailPath = .trail := by decide

/-- The path is known, and the method is none of its methods. Such a request never comes
to a handler. -/
def Request.Missed (r : Request) : Prop :=
  (Route.ofPath r.path).methods?.any (!·.contains r.method) = true

instance (r : Request) : Decidable r.Missed := inferInstanceAs (Decidable (_ = true))

/-- A request whose method is one of those of its route is not missed. -/
theorem Request.not_missed {r : Request} {route : Route} (hroute : Route.ofPath r.path = route)
    (hmethod : ∀ methods ∈ route.methods?, r.method ∈ methods) : ¬ r.Missed := by
  rw [Missed, hroute, Option.any_eq_true]
  rintro ⟨methods, hmethods, hmissed⟩
  simp [hmethod methods hmethods] at hmissed

/-- The response with an outcome: the status of the outcome, and its envelope as the body.
The answer to `HEAD` has no body. -/
def Request.reply (r : Request) (outcome : Except RequestFault Json) : Response :=
  ⟨Server.statusOf outcome, if r.method = "HEAD" then none else some (Server.envelope outcome)⟩

/-- The event of an outcome. It has the same status as the response, since both are taken
from the outcome, and no peer where the path is unknown. -/
def Request.event (r : Request) (outcome : Except RequestFault Json) (note : Note) :
    RequestEvent where
  route := Route.ofPath r.path
  status := Server.statusOf outcome
  peer := if Route.ofPath r.path = .unknown then none else some r.peer
  note := note
  errorKind := Server.errorKindOf outcome

namespace Server

variable {σ : Type} [RuleStore σ] {server : Server} {s : σ} {r : Request} {time : Instant}

/-- A missed request is answered with the bare status 405. Nothing is logged, and the
store is not looked at. -/
theorem answer_of_missed (h : r.Missed) :
    server.answer s r time = (⟨405, none⟩, none, s) := if_pos h

/-- Any other request is answered with what its handler makes of it, starting without
notes. Response and event are made from one outcome. -/
theorem answer_of_handled (h : ¬ r.Missed) :
    let run := (server.handler (Route.ofPath r.path) r time).on (Note.empty, s)
    server.answer s r time = (r.reply run.1, some (r.event run.1 run.2.1), run.2.2) := if_neg h

end Server

/-! ### Agreement -/

/-- The response is a success. -/
def Response.succeeded (r : Response) : Bool := 200 ≤ r.status && r.status < 300

/-- The body is an envelope: with data if the request succeeded, and with an
error if it did not. -/
inductive Response.Enveloped : Response → Prop where
  | data {r : Response} {v : Json} : r.succeeded = true →
      r.body = some (.object [("data", v), ("success", .bool true)]) → Enveloped r
  | error {r : Response} {message : String} : r.succeeded = false →
      r.body = some (.object [("error", .string message), ("success", .bool false)]) → Enveloped r

/-- What is logged of a request is what was answered: the same status, the same
outcome, and a kind of error exactly for the failures. -/
structure RequestEvent.Tells (e : RequestEvent) (r : Response) : Prop where
  status : e.status = r.status
  outcome : e.succeeded = r.succeeded
  errorKind : e.errorKind = none ↔ r.succeeded = true

/-- Refusals have a status from 400 on, so none of them can be taken for a success. -/
theorem RequestFault.four_hundred_le_status (e : RequestFault) : 400 ≤ e.status := by
  unfold status
  split
  -- Only faults of the store have more than one status.
  case h_10 => split <;> decide
  all_goals decide

/-- No refusal has the status of a success. -/
theorem RequestFault.status_ne_ok (e : RequestFault) : e.status ≠ 200 := by
  have hle := e.four_hundred_le_status
  omega

section

variable {r : Request} {outcome : Except RequestFault Json} {note : Note}

/-- The response is a success exactly when the outcome is one. -/
theorem Request.reply_succeeded : (r.reply outcome).succeeded = outcome.isOk := by
  cases outcome with
  | ok v => rfl
  | error e =>
    have hstatus := e.four_hundred_le_status
    show (decide (200 ≤ e.status) && decide (e.status < 300)) = false
    rw [decide_eq_false (Nat.not_lt_of_le (Nat.le_trans (by decide) hstatus)), Bool.and_false]

/-- Where a body is sent it is an envelope, of data or of an error as the outcome is. -/
theorem Request.reply_enveloped (hhead : r.method ≠ "HEAD") : (r.reply outcome).Enveloped := by
  have hbody : (r.reply outcome).body = some (Server.envelope outcome) := if_neg hhead
  cases outcome with
  | ok v => exact .data reply_succeeded hbody
  | error e => exact .error reply_succeeded hbody

/-- The event of an outcome tells what the response with that outcome says: the same
status, success or not, and a kind of error where there was one. -/
theorem Request.event_tells : (r.event outcome note).Tells (r.reply outcome) := by
  refine ⟨rfl, ?_, ?_⟩
  -- The event calls the status of the outcome a success, the response compares it.
  · rw [reply_succeeded]
    cases outcome with
    | ok v => rfl
    | error e => exact decide_eq_false (Nat.not_lt_of_le e.four_hundred_le_status)
  · rw [reply_succeeded]
    cases outcome with
    | ok v => exact iff_of_true rfl rfl
    | error e => exact iff_of_false (fun h => nomatch h) (fun h => nomatch h)

end

/-- **Every request that comes to a handler gets an envelope and leaves one
event.** A path that is known with a method that it does not have is
answered with status 405 alone: there is no body, no event, and the store is
not looked at. Any other request, whatever its query, headers and body, is
answered with one event, which has the status of the response, and which
tells of an error exactly when the response is no success. The body is then
an envelope, unless the method is `HEAD`, where no body is sent. -/
theorem handled_requests_enveloped_and_logged {σ : Type} [RuleStore σ] (server : Server) (s : σ)
    (r : Request) (time : Instant) :
    let (response, event?, next) := server.answer s r time
    if r.Missed then response = ⟨405, none⟩ ∧ event? = none ∧ next = s
    else (∃ event, event? = some event ∧ event.Tells response) ∧
      if r.method = "HEAD" then response.body = none else response.Enveloped := by
  by_cases hmethod : r.Missed
  · rw [Server.answer_of_missed hmethod]
    dsimp only
    rw [if_pos hmethod]
    exact ⟨rfl, rfl, rfl⟩
  · rw [Server.answer_of_handled hmethod]
    dsimp only
    rw [if_neg hmethod]
    refine ⟨⟨_, rfl, Request.event_tells⟩, ?_⟩
    split
    · exact if_pos ‹_›
    · exact Request.reply_enveloped ‹_›

/-- A request that would delete the rules. -/
def deleteRules : Request := ⟨"DELETE", listPath, "", [], [], .v4 127 0 0 1⟩

/-- It gets no envelope and leaves no event. The answer is the bare status,
which is neither data nor an error. -/
theorem deleteRules_unlogged :
    let (response, event?, _) := (default : Server).answer Ledger.empty deleteRules ⟨0, 0⟩
    ¬ response.Enveloped ∧ event? = none := by
  have hmissed : deleteRules.Missed := by decide +kernel
  rw [Server.answer_of_missed hmissed]
  refine ⟨fun h => ?_, rfl⟩
  cases h with
  | data _ hbody => exact nomatch hbody
  | error _ hbody => exact nomatch hbody

end Overrides
