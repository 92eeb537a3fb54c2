import Overrides.Config.Section
import Overrides.Files.Path

/-!
# `Overrides.Config.Check`: which configurations are refused

A configuration is checked section by section, and the first flaw
counts: the server with its listener, tokens and log, then the store,
the limits of snapshots, and what safe mode forces. A server that
listens beyond this host must ask for tokens.
-/

set_option autoImplicit false

namespace Overrides

open Overrides.Text

/-- The most tokens that may be configured. -/
def maxTokens : Nat := 64

/-- The longest time that clients may be told to wait, in seconds. -/
def maxTtlSeconds : UInt32 := 3600

/-- The greatest limit of enabled rules. -/
def maxMaxRules : Nat := 10000

/-- What is wrong with a path in a configuration. -/
inductive PathFlaw where
  | blank
  | tooLong
  | partTooLong
  deriving DecidableEq, Repr

/-- What is wrong with a configuration. -/
inductive ConfigFlaw where
  | badBind (bind : String)
  | noBody
  | tooManyTokens
  | blankToken
  | longToken
  | paddedToken
  | noTokens
  /-- The server listens beyond this host and asks for no token. -/
  | openBind
  | logPath (flaw : PathFlaw)
  | memoryWithPath
  | databaseWithoutPath
  | storePath (flaw : PathFlaw)
  | badTtl
  | badMaxRules
  /-- A limit that safe mode would force is out of range. -/
  | badPolicy (field : Field)
  deriving DecidableEq, Repr

/-- The wording of a flaw. -/
def ConfigFlaw.message : ConfigFlaw → String
  | .badBind bind => "invalid bind address: " ++ bind
  | .noBody => "max_body_bytes must be greater than zero"
  | .tooManyTokens => "too many auth tokens"
  | .blankToken => "auth token must be non-empty"
  | .longToken => "auth token too long"
  | .paddedToken => "auth token must not contain whitespace"
  | .noTokens => "bearer_token auth requires bearer_tokens"
  | .openBind => "non-loopback bind requires bearer_token auth"
  | .logPath .blank => "server.audit.path must be non-empty"
  | .logPath .tooLong => "server.audit.path exceeds max length"
  | .logPath .partTooLong => "server.audit.path path component too long"
  | .memoryWithPath => "memory rule_store must not set path"
  | .databaseWithoutPath => "sqlite rule_store requires path"
  | .storePath .blank => "rule_store path must be non-empty"
  | .storePath .tooLong => "rule_store path exceeds max length"
  | .storePath .partTooLong => "rule_store path component too long"
  | .badTtl => "snapshot.ttl_seconds must be between 1 and " ++ Nat.repr maxTtlSeconds.toNat
  | .badMaxRules => "snapshot.max_rules must be between 1 and " ++ Nat.repr maxMaxRules
  | .badPolicy field => Policy.outOfRangeMessage field

/-- Checks the length of a path. -/
def checkPath (path : String) : Except PathFlaw Unit :=
  if (trim path).isEmpty then .error .blank
  else if Path.isTooLong path then .error .tooLong
  else if Path.hasLongPart path then .error .partTooLong
  else .ok ()

namespace Config

/-- The listener of a server. -/
def bindAddress (s : ServerConfig) : Except ConfigFlaw SocketAddress :=
  match SocketAddress.parse? (trim s.bind) with
  | some a => .ok a
  | none => .error (.badBind s.bind)

/-- Checks one token. -/
def checkToken (token : String) : Except ConfigFlaw Unit :=
  if (trim token).isEmpty then .error .blankToken
  else if maxTokenBytes < token.utf8ByteSize then .error .longToken
  else if trim token ≠ token then .error .paddedToken
  else .ok ()

/-- Checks who may administer. -/
def checkAuth (a : Auth) : Except ConfigFlaw Unit := do
  if maxTokens < a.tokens.length then .error .tooManyTokens
  a.tokens.forM checkToken
  if a.mode = .bearerToken ∧ a.tokens = [] then .error .noTokens

/-- Checks the server. -/
def checkServer (s : ServerConfig) : Except ConfigFlaw Unit := do
  let address ← bindAddress s
  if s.maxBodyBytes = 0 then .error .noBody
  checkAuth s.auth
  if !address.ip.isLoopback && s.auth.mode = .localOnly then .error .openBind
  match s.log.path with
  | some path => (checkPath (trim path)).mapError .logPath
  | none => .ok ()

/-- Checks the store. -/
def checkStore (s : StoreConfig) : Except ConfigFlaw Unit :=
  match s.kind, s.path with
  | .memory, some _ => .error .memoryWithPath
  | .memory, none => .ok ()
  | .sqlite, none => .error .databaseWithoutPath
  | .sqlite, some path => (checkPath path).mapError .storePath

/-- Checks the limits of snapshots. -/
def checkSnapshot (s : SnapshotConfig) : Except ConfigFlaw Unit :=
  if s.ttlSeconds = 0 ∨ maxTtlSeconds < s.ttlSeconds then .error .badTtl
  else if s.maxRules = 0 ∨ maxMaxRules < s.maxRules then .error .badMaxRules
  else .ok ()

/-- Checks what safe mode forces. -/
def checkPolicy (p : Policy) : Except ConfigFlaw Unit :=
  match p.outOfRange? with
  | some field => .error (.badPolicy field)
  | none => .ok ()

/-- Names the first flaw of a configuration. -/
def check (c : Config) : Except ConfigFlaw Unit := do
  checkServer c.server
  checkStore c.store
  checkSnapshot c.snapshot
  checkPolicy c.policy

end Config

end Overrides
