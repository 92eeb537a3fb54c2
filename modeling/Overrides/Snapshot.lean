import Overrides.Digest
import Overrides.Snapshot.Precedence
import Overrides.Snapshot.SafeMode

/-!
# `Overrides.Snapshot`: what a client is told

A snapshot is compiled from rules for one request context: eligible
rules are resolved field by field, safe mode replaces the result by
the policy when it is on, and the trace names the rules behind it,
by scope and then by precedence. The digest covers the five scope
objects and nothing else, so clients can tell whether their settings
changed.
-/

set_option autoImplicit false

namespace Overrides

/-- The version of the snapshot format. -/
def snapshotVersion : UInt32 := 1

/-- How often clients ask again, in seconds, where nothing is configured. -/
def defaultTtlSeconds : UInt32 := 45

/-- Compiled settings for one request context. -/
structure Snapshot where
  version : UInt32
  context : Context
  settings : Settings
  applied : List Applied
  safeModeForced : Bool
  configHash : Digest
  compiledAt : Instant
  ttlSeconds : UInt32

/-- What a snapshot depends on besides rules, context and time. -/
structure Compiler where
  policy : Policy
  ttlSeconds : UInt32
  deriving Inhabited

namespace Snapshot

/-- The trace of a snapshot: by scope, and of the global scope alone when
safe mode forced the settings. -/
def trace (forced : Bool) (applied : List Applied) : List Applied :=
  (if forced then applied.filter (·.scope = .global) else applied).mergeSort
    fun a b => a.scope.rank ≤ b.scope.rank

/-- The digest of settings. -/
def hashOf (t : Settings) : Digest := Digest.ofCanonical .sha256 t.toJson

/-- Compiles the snapshot of rules for a context. -/
def compile (compiler : Compiler) (rules : List Rule) (context : Context) (time : Instant) :
    Snapshot :=
  let context := context.normalized
  let resolved := Resolved.ofEligible (eligible rules context)
  let compiled := resolved.settings
  -- Safe mode replaces all settings, and the digest is taken of what is delivered.
  let forced := compiled.get .safeMode
  let settings := if forced then compiler.policy.forced else compiled
  { version := snapshotVersion
    context := context
    settings := settings
    applied := trace forced resolved.applied
    safeModeForced := forced
    configHash := hashOf settings
    compiledAt := time
    ttlSeconds := compiler.ttlSeconds }

/-! ### The wire form -/

/-- The snapshot on the wire, unless its instant cannot be written. -/
def toJson? (s : Snapshot) : Option Json := do
  let compiledAt ← s.compiledAt.toJson?
  return Json.ofMembers ([
    ("version", Json.ofNat s.version.toNat),
    ("context", s.context.toJson)]
    ++ s.settings.members ++ [
    ("applied", .array (s.applied.map Applied.toJson)),
    ("safe_mode_forced", .bool s.safeModeForced),
    ("config_hash", s.configHash.toJson),
    ("compiled_at", compiledAt),
    ("ttl_seconds", Json.ofNat s.ttlSeconds.toNat)])

/-- Reads a snapshot. -/
def ofJson (v : Json) : Except Json.Mismatch Snapshot := do
  match v with
  | .object _ =>
    let field (name : String) : Except Json.Mismatch Json := Json.required name (v.member? name)
    return {
      version := ← Json.asUInt32 (← field "version")
      context := ← Context.ofJson (← field "context")
      settings := ← Settings.ofJson v
      applied := ← Json.asList Applied.ofJson (← field "applied")
      safeModeForced := ← Json.asFlag (← field "safe_mode_forced")
      configHash := ← Digest.ofJson (← field "config_hash")
      compiledAt := ← Instant.ofJson (← field "compiled_at")
      ttlSeconds := ← Json.asUInt32 (← field "ttl_seconds") }
  | v => .error (.invalidType (Json.found v) "a snapshot")

end Snapshot

end Overrides
