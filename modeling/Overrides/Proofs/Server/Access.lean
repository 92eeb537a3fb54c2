import Overrides.Proofs.Outcome
import Overrides.Proofs.Server.Answers
import Overrides.Store.Database

/-!
# `Overrides.Proofs.Server.Access`: who is no administrator learns nothing

Every handler for administrators begins with the question where the request
comes from. Where the answer is no, the handler stops there: the query, the
body, the other headers and the store have not been looked at, and nothing
has been noted. So two requests that are refused for the same reason cannot
be told apart, whatever the stores hold.

* `Server.on_handler_of_rejected`: the run of a handler that stops there.
* `rejected_requests_learn_nothing`: two requests, two servers, two stores.
-/

set_option autoImplicit false

namespace Overrides

/-- The request submits a rule, lists the rules or asks for the trail. -/
inductive Request.Administers : Request → Prop where
  | submit {r : Request} : r.path = submitPath → r.method = "PUT" ∨ r.method = "POST" →
      Administers r
  | read {r : Request} : r.path = listPath ∨ r.path = trailPath → r.method = "GET" → Administers r

/-- Where the request comes from is no administrator, for this reason. The
policy sees the peer and one header, and nothing else of the request. -/
def Request.Rejected (r : Request) (auth : Auth) (e : AuthFault) : Prop :=
  auth.authorize (some r.peer) (r.header? "authorization") = .error e

/-- It is this administrator. -/
def Request.Admitted (r : Request) (auth : Auth) (i : Identity) : Prop :=
  auth.authorize (some r.peer) (r.header? "authorization") = .ok i

namespace Request

variable {r : Request}

/-- An administrative request is one that the router knows, path and method. So
it comes to a handler, which asks for the identity first. -/
theorem Administers.not_missed (h : r.Administers) : ¬ r.Missed := by
  cases h with
  | submit hpath hmethod =>
    refine Request.not_missed (hpath ▸ Route.ofPath_submitPath) ?_
    simpa [Route.methods?] using hmethod
  | read hpath hmethod =>
    rcases hpath with hpath | hpath
    · refine Request.not_missed (hpath ▸ Route.ofPath_listPath) ?_
      simp [Route.methods?, hmethod]
    · refine Request.not_missed (hpath ▸ Route.ofPath_trailPath) ?_
      simp [Route.methods?, hmethod]

/-- None of the administrative methods is `HEAD`, so the body of the answer is
sent. -/
theorem Administers.method_ne_head (h : r.Administers) : r.method ≠ "HEAD" := by
  cases h with
  | submit _ hmethod => rcases hmethod with hmethod | hmethod <;> rw [hmethod] <;> decide
  | read _ hmethod => rw [hmethod]; decide

/-- The routes of the administrative requests. -/
theorem Administers.route (h : r.Administers) :
    Route.ofPath r.path = .submit ∨ Route.ofPath r.path = .list ∨ Route.ofPath r.path = .trail := by
  cases h with
  | submit hpath _ => exact .inl (by rw [hpath, Route.ofPath_submitPath])
  | read hpath _ =>
    rcases hpath with hpath | hpath
    · exact .inr (.inl (by rw [hpath, Route.ofPath_listPath]))
    · exact .inr (.inr (by rw [hpath, Route.ofPath_trailPath]))

end Request

namespace Server

variable {σ : Type} [RuleStore σ] {server : Server} {r : Request} {time : Instant} {e : AuthFault}

/-- A handler for administrators stops at that question. It is the first that is
asked, before the body, the query or the store is looked at. -/
theorem on_handler_of_rejected {route : Route}
    (hroute : route = .submit ∨ route = .list ∨ route = .trail)
    (hrejected : r.Rejected server.auth e) (s : Note × σ) :
    (server.handler route r time).on s = (.error (.auth e), s) := by
  have hstop : ∀ next : Identity → Handler σ Json,
      (server.authorize r >>= next).on s = (.error (.auth e), s) := by
    intro next
    rw [authorize, Handler.on_check_bind, hrejected]
  rcases hroute with rfl | rfl | rfl
  · exact hstop _
  · exact hstop _
  · exact hstop _

/-- So the answer depends on the reason alone, and on who asks for what. -/
theorem answer_of_rejected (h : r.Administers) (hrejected : r.Rejected server.auth e) (s : σ) :
    server.answer s r time
      = (⟨401, some (envelope (.error (.auth e)))⟩,
        some (r.event (.error (.auth e)) .empty), s) := by
  rw [answer_of_handled h.not_missed, on_handler_of_rejected h.route hrejected]
  exact Prod.ext (congrArg (Response.mk 401) (if_neg h.method_ne_head)) rfl

end Server

/-- **Who is no administrator learns nothing and changes nothing.** Take two
requests that submit a rule, list the rules or ask for the trail, on the same
route, from the same peer and with the same authorization, which the policy
of the server rejects. Let the stores, the limits, the instants, the bodies,
the queries and the other headers be any. The two requests get one and the
same response, with status 401. Both stores stay as they are. The two events
are the same too, and nothing of the request is noted there: no rule key, no
actor and no bytes. -/
theorem rejected_requests_learn_nothing {σ τ : Type} [RuleStore σ] [RuleStore τ]
    (server server' : Server) (s : σ) (t : τ) (r r' : Request) (time time' : Instant)
    (hauth : server'.auth = server.auth) (hr : r.Administers) (hr' : r'.Administers)
    (hpath : r'.path = r.path) (hpeer : r'.peer = r.peer)
    (hheader : r'.header? "authorization" = r.header? "authorization") {e : AuthFault}
    (hrejected : r.Rejected server.auth e) :
    ∃ (response : Response) (event : RequestEvent),
      server.answer s r time = (response, some event, s) ∧
      server'.answer t r' time' = (response, some event, t) ∧ response.status = 401 ∧
      event.note.ruleKey = none ∧ event.note.actor = none ∧ event.note.bytes = 0 := by
  -- The policy looks at the peer and the authorization, which the requests have in common.
  have hrejected' : r'.Rejected server'.auth e := by
    rw [Request.Rejected, hauth, hpeer, hheader]
    exact hrejected
  refine ⟨_, _, Server.answer_of_rejected hr hrejected s, ?_, rfl, rfl, rfl, rfl⟩
  have hevent : r'.event (.error (.auth e)) .empty = r.event (.error (.auth e)) .empty := by
    rw [Request.event, Request.event, hpath, hpeer]
  rw [Server.answer_of_rejected hr' hrejected' t, hevent]

/-- A server with one token. -/
def tokenServer : Server := ⟨⟨default, 1⟩, ⟨.bearerToken, ["open sesame"]⟩, 4096⟩

/-- A submission under a token that the server does not have. -/
def guessedSubmission : Request where
  method := "PUT"
  path := submitPath
  query := ""
  headers := [("Authorization", Text.Utf8.encode "Bearer abracadabra")]
  body := Text.Utf8.encode "\x7b\x7d"
  peer := .v4 192 0 2 1

/-- It gets the same answer as one that names an actor and has a body that is
no JSON, from a ledger and from a database. -/
theorem guessedSubmission_answered_blindly : ∃ (response : Response) (event : RequestEvent),
    tokenServer.answer Ledger.empty guessedSubmission ⟨0, 0⟩
      = (response, some event, Ledger.empty) ∧
    tokenServer.answer Database.empty { guessedSubmission with
        method := "POST"
        headers := (actorHeader, [0x6d, 0x65]) :: guessedSubmission.headers
        body := [0xff] } ⟨5, 0⟩
      = (response, some event, Database.empty) ∧ response.status = 401 ∧
    event.note.ruleKey = none ∧ event.note.actor = none ∧ event.note.bytes = 0 := by
  have hrejected : guessedSubmission.Rejected tokenServer.auth .unknownToken := by
    show Auth.authorize _ _ _ = _
    decide +kernel
  exact rejected_requests_learn_nothing tokenServer tokenServer Ledger.empty Database.empty
    guessedSubmission _ ⟨0, 0⟩ ⟨5, 0⟩ rfl (.submit rfl (.inl rfl)) (.submit rfl (.inr rfl)) rfl rfl
    (by decide +kernel) hrejected

end Overrides
