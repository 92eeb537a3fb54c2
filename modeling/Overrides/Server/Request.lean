import Overrides.RuleFile
import Overrides.Server.Event
import Overrides.Server.Query

/-!
# `Overrides.Server.Request`: requests and why they are refused

A refused request has a status, a kind for the log, and a wording for
the caller. What the caller got wrong is answered with a status from
400 on, what went wrong inside with one from 500 on.
-/

set_option autoImplicit false

namespace Overrides

open Overrides.Text

/-- A request as it arrives. -/
structure Request where
  method : String
  path : String
  query : String
  /-- Names and values in the order in which they stand. -/
  headers : List (String × List UInt8)
  body : List UInt8
  peer : IpAddress

/-- A byte that may stand in a readable header: a visible character of
ASCII, a space or a tab. -/
def isReadable (b : UInt8) : Bool := (0x20 ≤ b && b ≤ 0x7e) || b = 0x09

/-- The first header of a name, if it is readable. The case of the name
does not count. -/
def Request.header? (r : Request) (name : String) : Option String :=
  match r.headers.find? fun h => sameAscii h.1 name with
  | some (_, value) => if value.all isReadable then Utf8.decode? value else none
  | none => none

/-- What the server answers. -/
structure Response where
  status : Nat
  body : Option Json

/-- Why a request is refused. -/
inductive RequestFault where
  | noRoute
  | auth (cause : AuthFault)
  | bodyTooLarge
  | repeatedParameter (name : String)
  | badBody (cause : Json.Fault)
  | badActor (cause : ActorFault)
  /-- A parameter names no scope or no rule key. -/
  | badParameter (cause : RuleFault)
  | badLimit
  | service (cause : ServiceFault)
  /-- The answer cannot be written. -/
  | unwritable
  deriving DecidableEq, Repr

namespace RequestFault

/-- The status of the answer. -/
def status : RequestFault → Nat
  | noRoute => 404
  | auth _ => 401
  | bodyTooLarge => 413
  | repeatedParameter _ | badBody _ | badActor _ | badParameter _ | badLimit => 400
  | service (.rule _) => 400
  | service (.store cause) => if cause.kind = .invalid then 400 else 500
  | service (.ruleLimitReached _) => 400
  | service (.tooManyRules ..) => 500
  | unwritable => 500

/-- The kind in the log. -/
def kind : RequestFault → String
  | noRoute => "not_found"
  | auth _ => "unauthenticated"
  | bodyTooLarge => "payload_too_large"
  | repeatedParameter _ | badBody _ | badActor _ | badParameter _ | badLimit => "invalid_request"
  | service (.rule _) => "invalid_rule"
  | service (.store cause) => if cause.kind = .invalid then "invalid_rule" else "store"
  | service (.ruleLimitReached _) | service (.tooManyRules ..) => "rule_limit"
  | unwritable => "serialization"

/-- The wording for the caller. -/
def message : RequestFault → String
  | noRoute => "route not found"
  | auth cause => cause.message
  | bodyTooLarge => "request body too large"
  | repeatedParameter name =>
    "Failed to deserialize query string: " ++ (Json.Mismatch.duplicateField name).message
  | badBody cause => "invalid request body: " ++ cause.message
  | badActor cause => cause.message
  | badParameter cause => cause.message
  | badLimit => "limit must be a positive integer"
  | service (.store cause) => if cause.kind = .invalid then cause.detail else cause.message
  | service cause => cause.message
  | unwritable => "serialization failed"

end RequestFault

end Overrides
