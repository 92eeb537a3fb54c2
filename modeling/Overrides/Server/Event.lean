import Overrides.Config.Section
import Overrides.Context

/-!
# `Overrides.Server.Event`: the log of the server

Every request that a handler answers leaves one event, and a server
that starts with a weak setup leaves one for each weakness. An event
is written as one line of JSON with the time of writing.
-/

set_option autoImplicit false

namespace Overrides

/-- What a request asks for. -/
inductive Route where
  | snapshot
  | submit
  | list
  | trail
  /-- Nothing that the server knows. -/
  | unknown
  deriving DecidableEq, Repr, Inhabited

/-- The name of a route in events. -/
def Route.label : Route → String
  | .snapshot => "control_snapshot"
  | .submit => "rules_upsert"
  | .list => "rules_list"
  | .trail => "rules_audit"
  | .unknown => "unknown"

/-- What a handler notes about a request on its way. -/
structure Note where
  context : Option Context
  ruleKey : Option String
  actor : Option String
  /-- The bytes of the body that were read. -/
  bytes : Nat
  deriving DecidableEq, Repr, Inhabited

/-- Nothing noted yet. -/
def Note.empty : Note := ⟨none, none, none, 0⟩

/-- A request that was answered. -/
structure RequestEvent where
  route : Route
  status : Nat
  peer : Option IpAddress
  note : Note
  errorKind : Option String

namespace RequestEvent

/-- The request succeeded. -/
def succeeded (e : RequestEvent) : Bool := e.status < 400

/-- The members of the event, but for the time. -/
def members (e : RequestEvent) : List (String × Json) := [
  ("event", .string "control_request"),
  ("route", .string e.route.label),
  ("outcome", .string (if e.succeeded then "ok" else "error")),
  ("status", Json.ofNat e.status),
  ("peer_ip", Json.ofOption (fun ip : IpAddress => .string ip.text) e.peer),
  ("context", Json.ofOption Context.toJson e.note.context),
  ("rule_key", Json.ofOption .string e.note.ruleKey),
  ("actor", Json.ofOption .string e.note.actor),
  ("error_kind", Json.ofOption .string e.errorKind),
  ("request_bytes", Json.ofNat e.note.bytes)]

end RequestEvent

/-- A weakness of the setup. -/
inductive Weakness where
  /-- Whoever is on this host may administer. -/
  | localAdmin
  /-- Rules are kept in memory only. -/
  | lostOnRestart
  deriving DecidableEq, Repr

/-- The name of a weakness. -/
def Weakness.kind : Weakness → String
  | .localAdmin => "local_only_admin"
  | .lostOnRestart => "ephemeral_rule_store"

/-- What is said of a weakness. -/
def Weakness.message : Weakness → String
  | .localAdmin => "admin routes accept any loopback caller"
  | .lostOnRestart => "rules are lost on restart"

/-- The weaknesses of a configuration. -/
def Config.weaknesses (c : Config) : List Weakness :=
  (if c.server.auth.mode = .localOnly then [.localAdmin] else [])
    ++ (if c.store.kind = .memory then [.lostOnRestart] else [])

/-- The members of the event of a weakness, but for the time. -/
def Weakness.members (c : Config) (w : Weakness) : List (String × Json) := [
  ("event", .string "security"),
  ("kind", .string w.kind),
  ("message", .string w.message),
  ("auth_mode", .string c.server.auth.mode.name),
  ("rule_store", .string c.store.kind.name)]

/-- The line of an event that is written at a time. -/
def eventLine (time : Instant) (members : List (String × Json)) : String :=
  (Json.ofMembers (("timestamp_ms", Json.ofNat time.millis.toNat) :: members)).compact ++ "\n"

end Overrides
