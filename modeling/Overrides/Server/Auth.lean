import Overrides.Digest
import Overrides.Server.Address
import Overrides.Text.Blank
import Overrides.Text.Lowercase

/-!
# `Overrides.Server.Auth`: who may administer rules

Without tokens the caller must come from this host itself. With tokens
the caller must show one of them in a bearer header, from wherever it
comes. A caller with a token is known by the hash of the token, and
may name the actor that writes are recorded under.
-/

set_option autoImplicit false

namespace Overrides

open Overrides.Text

/-- How administrators are told from others. -/
inductive AuthMode where
  /-- By coming from this host. -/
  | localOnly
  /-- By a token. -/
  | bearerToken
  deriving DecidableEq, Repr, Inhabited

/-- The name of a mode. -/
def AuthMode.name : AuthMode → String
  | .localOnly => "local_only"
  | .bearerToken => "bearer_token"

/-- All modes. -/
def AuthMode.all : List AuthMode := [.localOnly, .bearerToken]

/-- The most bytes a token may have. -/
def maxTokenBytes : Nat := 256

/-- The most bytes an authorization header may have. -/
def maxAuthHeaderBytes : Nat := 8192

/-- The most bytes an actor header may have. -/
def maxActorBytes : Nat := 256

/-- Why a caller is no administrator. -/
inductive AuthFault where
  | notLocal
  | missingHeader
  | headerTooLarge
  | invalidHeader
  | unknownToken
  deriving DecidableEq, Repr

/-- The wording of an authentication fault. -/
def AuthFault.message (e : AuthFault) : String :=
  "unauthenticated: " ++ match e with
    | .notLocal => "local-only mode requires loopback access"
    | .missingHeader => "missing authorization"
    | .headerTooLarge => "authorization header too large"
    | .invalidHeader => "invalid authorization header"
    | .unknownToken => "invalid bearer token"

/-- An administrator, and how it was told. -/
inductive Identity where
  | thisHost
  /-- The hash of the token that was shown. -/
  | bearer (fingerprint : String)
  deriving DecidableEq, Repr

/-- The actor that writes of the administrator are recorded under, if none
is named. -/
def Identity.defaultActor : Identity → String
  | .thisHost => "loopback"
  | .bearer fingerprint => "token:" ++ fingerprint

/-- The actor that writes are recorded under. -/
def Identity.actor (i : Identity) (named : Option String) : String := named.getD i.defaultActor

/-- Who is an administrator. -/
structure Auth where
  mode : AuthMode
  tokens : List String
  deriving DecidableEq, Repr, Inhabited

namespace Auth

/-- The token in a header: the scheme, a space, and the token with blanks
around it. -/
def tokenOf (header : String) : Except AuthFault String :=
  if maxAuthHeaderBytes < header.utf8ByteSize then .error .headerTooLarge
  else
    let (scheme, rest) := (trim header).toList.span (· ≠ ' ')
    let token := trim (String.ofList (rest.drop 1))
    if !sameAscii (String.ofList scheme) "bearer" || token.isEmpty then .error .invalidHeader
    else if maxTokenBytes < token.utf8ByteSize then .error .unknownToken
    else .ok token

/-- The administrator that a request comes from. -/
def authorize (auth : Auth) (peer : Option IpAddress) (header : Option String) :
    Except AuthFault Identity :=
  match auth.mode with
  | .localOnly => if peer.any IpAddress.isLoopback then .ok .thisHost else .error .notLocal
  | .bearerToken =>
    match header with
    | none => .error .missingHeader
    | some header => do
      let token ← tokenOf header
      if auth.tokens.contains token then .ok (.bearer (Digest.ofText .sha256 token).value)
      else .error .unknownToken

end Auth

/-- Why an actor is refused: it is too long. -/
inductive ActorFault where
  | tooLong
  deriving DecidableEq, Repr

/-- The wording of an actor fault. -/
def ActorFault.message : ActorFault → String
  | .tooLong => "actor header exceeds " ++ Nat.repr maxActorBytes ++ " bytes"

/-- The actor that a text names: trimmed, in lower case, and none when
nothing is left. -/
def normalizeActor (raw : Option String) : Except ActorFault (Option String) :=
  match raw.bind nonBlank? with
  | none => .ok none
  | some name =>
    -- The length is that of the name as it was given.
    if maxActorBytes < name.utf8ByteSize then .error .tooLong else .ok (some (lower name))

end Overrides
