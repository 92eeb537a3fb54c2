import Overrides.Server.Request

/-!
# `Overrides.Server.Router`: answering requests

The server answers four routes: the snapshot for clients, and for
administrators the submission of a rule, the listing and the trail. An
answer is an envelope that says whether the request succeeded, with
the data or the error. Administrators are told before anything else
about a request is looked at.

A known path with a method that it does not have is answered by status
405 alone. Every other request leaves exactly one event.
-/

set_option autoImplicit false

namespace Overrides

open Overrides.Text

/-- What the server answers from, besides its store. -/
structure Server where
  service : Service
  auth : Auth
  maxBodyBytes : Nat
  deriving Inhabited

/-- The path of the snapshot. -/
def snapshotPath : String := "/api/divine-guard/control-snapshot"

/-- The path of submissions. -/
def submitPath : String := "/api/admin/divine-guard/rules/upsert"

/-- The path of the listing. -/
def listPath : String := "/api/admin/divine-guard/rules"

/-- The path of the trail. -/
def trailPath : String := "/api/admin/divine-guard/rules/audit"

/-- The header that names the actor. -/
def actorHeader : String := "x-divine-guard-actor"

/-- How many records are given where no number is asked for. -/
def defaultTrailLimit : Nat := 200

/-- The most records that are given at once. -/
def maxTrailLimit : Nat := 1000

/-- The route of a path. -/
def Route.ofPath (path : String) : Route :=
  if path = snapshotPath then .snapshot
  else if path = submitPath then .submit
  else if path = listPath then .list
  else if path = trailPath then .trail
  else .unknown

/-- The methods of a route; no list where every method will do. -/
def Route.methods? : Route → Option (List String)
  | .submit => some ["PUT", "POST"]
  | .unknown => none
  | _ => some ["GET", "HEAD"]

/-! ### Handlers -/

/-- Handles a request: takes notes, works on a store, and gives data or a
fault. -/
abbrev Handler (σ α : Type) := ExceptT RequestFault (StateM (Note × σ)) α

namespace Handler

variable {σ α : Type}

/-- Stops with a fault, if there is one. -/
def check {ε : Type} (wrap : ε → RequestFault) : Except ε α → Handler σ α
  | .ok a => pure a
  | .error e => throw (wrap e)

/-- Changes the notes. -/
def note (f : Note → Note) : Handler σ Unit := modify fun s => (f s.1, s.2)

/-- The data of an answer, if it can be written. -/
def written (v : Option Json) : Handler σ Json := check (fun _ : Unit => .unwritable) (match v with
  | some v => .ok v
  | none => .error ())

end Handler

namespace Server

variable {σ : Type} [RuleStore σ]

/-- The administrator that a request comes from. -/
def authorize (server : Server) (r : Request) : Handler σ Identity :=
  Handler.check .auth (server.auth.authorize (some r.peer) (r.header? "authorization"))

/-- The values of the parameters that a route knows. -/
def parametersOf (names : List String) (r : Request) : Handler σ (List (String × String)) :=
  Handler.check .repeatedParameter (Query.known names r.query)

/-- The snapshot for the context in the parameters. -/
def snapshot (server : Server) (r : Request) (time : Instant) : Handler σ Json := do
  let ps ← parametersOf (Dimension.all.map Dimension.name) r
  let context := Context.normalized (.ofValues fun d => ps.lookup d.name)
  Handler.note fun n => { n with context := some context }
  let s ← Handler.check .service (server.service.snapshot (← get).2 context time)
  Handler.written s.toJson?

/-- The body of a request, unless it is too large. -/
def body (server : Server) (r : Request) : Handler σ (List UInt8) :=
  if server.maxBodyBytes < r.body.length then throw .bodyTooLarge
  else do
    Handler.note fun n => { n with bytes := r.body.length }
    return r.body

/-- Submits the rule in the body. -/
def submit (server : Server) (r : Request) (time : Instant) : Handler σ Json := do
  let identity ← server.authorize r
  let bytes ← server.body r
  let draft ← Handler.check .badBody (Draft.ofBytes bytes)
  Handler.note fun n => { n with ruleKey := some (trim draft.ruleKey) }
  -- The key is noted by now, so a refusal of the actor is logged with it.
  let named ← Handler.check .badActor (normalizeActor (r.header? actorHeader))
  let actor := identity.actor named
  Handler.note fun n => { n with actor := some actor }
  let (n, s) ← get
  let (outcome, s) := server.service.submit s draft (some actor) time
  set (n, s)
  let written ← Handler.check .service outcome
  Handler.written written.rule.toJson?

/-- The scope that a parameter names; a blank one names none. -/
def scopeOf (raw : Option String) : Except RuleFault (Option Scope) :=
  match raw.bind nonBlank? with
  | none => .ok none
  | some name =>
    match Scope.parse? name with
    | some s => .ok (some s)
    | none => .error (.unknownScope name)

/-- Lists the rules, of one scope or of all. -/
def list (server : Server) (r : Request) : Handler σ Json := do
  let _ ← server.authorize r
  let ps ← parametersOf ["scope"] r
  let scope ← Handler.check .badParameter (scopeOf (ps.lookup "scope"))
  let rules ← Handler.check .service (Service.list (← get).2 ⟨scope, false⟩)
  Handler.written (Json.array <$> rules.mapM Rule.toJson?)

/-- The rule key that a parameter names; a blank one names none. -/
def keyOf (raw : Option String) : Except RuleFault (Option RuleKey) :=
  match raw with
  | none => .ok none
  | some text => if (trim text).isEmpty then .ok none else some <$> RuleKey.parse text

/-- The number that a text spells: perhaps a plus, then digits. -/
def natural? (text : String) : Option Nat :=
  let digits := match text.toList with
    | '+' :: rest => rest
    | rest => rest
  if digits.isEmpty || !digits.all Char.isDigit then none
  else some (digits.foldl (fun n c => n * 10 + (c.toNat - '0'.toNat)) 0)

/-- How many records a parameter asks for: more than none, in 64 bits. -/
def limitOf (raw : Option String) : Except Unit Nat :=
  match raw.bind nonBlank? with
  | none => .ok defaultTrailLimit
  | some text =>
    match natural? text with
    | some n => if 0 < n ∧ n < UInt64.size then .ok (min n maxTrailLimit) else .error ()
    | none => .error ()

/-- Gives the newest records of the trail, of one rule or of all. -/
def trail (server : Server) (r : Request) : Handler σ Json := do
  let _ ← server.authorize r
  let ps ← parametersOf ["rule_key", "limit"] r
  let key ← Handler.check .badParameter (keyOf (ps.lookup "rule_key"))
  Handler.note fun n => { n with ruleKey := key.map RuleKey.text }
  let limit ← Handler.check (fun _ => .badLimit) (limitOf (ps.lookup "limit"))
  let records ← Handler.check .service (Service.trail (← get).2 key limit)
  Handler.written (Json.array <$> records.mapM AuditRecord.toJson?)

/-- Handles a request on a route. -/
def handler (server : Server) (route : Route) (r : Request) (time : Instant) : Handler σ Json :=
  match route with
  | .snapshot => server.snapshot r time
  | .submit => server.submit r time
  | .list => server.list r
  | .trail => server.trail r
  | .unknown => throw .noRoute

/-! ### Answers -/

/-- The envelope around data or an error. -/
def envelope : Except RequestFault Json → Json
  | .ok data => .object [("data", data), ("success", .bool true)]
  | .error e => .object [("error", .string e.message), ("success", .bool false)]

/-- The status of an outcome. -/
def statusOf : Except RequestFault Json → Nat
  | .ok _ => 200
  | .error e => e.status

/-- The kind of error of an outcome. -/
def errorKindOf : Except RequestFault Json → Option String
  | .ok _ => none
  | .error e => some e.kind

/-- Answers a request: the response, the event, and the store after it. -/
def answer (server : Server) (s : σ) (r : Request) (time : Instant) :
    Response × Option RequestEvent × σ :=
  let route := Route.ofPath r.path
  -- The path is known and the method is not: no handler runs and nothing is logged.
  if route.methods?.any (!·.contains r.method) then (⟨405, none⟩, none, s)
  else
    let (outcome, note, s) := ((server.handler route r time).run).run (Note.empty, s)
    let status := statusOf outcome
    (⟨status, if r.method = "HEAD" then none else some (envelope outcome)⟩,
      some ⟨route, status, if route = .unknown then none else some r.peer, note,
        errorKindOf outcome⟩, s)

end Server

end Overrides
