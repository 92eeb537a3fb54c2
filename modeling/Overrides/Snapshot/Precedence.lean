import Overrides.Rule
import Overrides.Snapshot.Settings

/-!
# `Overrides.Snapshot.Precedence`: who decides each field

A rule is eligible when it is enabled and its filter accepts the
context. Eligible rules are gone through in order of precedence, and
each one wins the fields that it sets and that nobody has won yet. A
rule that leaves a field unset never hides a lower one. Safe mode is
the exception: once any eligible rule switches it on, rules that
switch it off no longer count.

Each scope claims its fields one after the other, with the slot, the
value and the name of each spelled out, and so are the settings that
come of the winners.
-/

set_option autoImplicit false

namespace Overrides

/-- The enabled rules whose filter accepts the context, in their order. -/
def eligible (rules : List Rule) (c : Context) : List Rule :=
  rules.filter fun r => r.content.enabled && r.content.filter.accepts c

/-- A value and the rule that contributed it. -/
structure Contribution (α : Type) where
  value : α
  ruleKey : RuleKey
  priority : UInt32
  revision : UInt64

/-- The contribution of a rule. -/
def Contribution.ofRule {α : Type} (r : Rule) (value : α) : Contribution α :=
  ⟨value, r.key, r.priority, r.revision⟩

/-- A rule and the fields that it decided. -/
structure Applied where
  ruleKey : RuleKey
  scope : Scope
  priority : UInt32
  revision : UInt64
  fields : List String
  deriving DecidableEq, Repr, Inhabited

/-- The entry of a rule that won the fields of these names. -/
def Applied.ofNames (r : Rule) (names : List String) : Applied :=
  ⟨r.key, r.scope, r.priority, r.revision, names⟩

/-- A slot for the winner of each field. -/
abbrev Winners := Table fun f => Option (Contribution f.Value)

/-- The winner of every field, and the rules that won some. -/
structure Resolved where
  winners : Winners
  applied : List Applied

/-! ### Claims -/

/-- The winners while one rule makes its claims, and the names that it has won. -/
structure Claims where
  winners : Winners
  won : List String

/-- The rule claims the slot of a field under a name. It wins the slot if it
has a value and nobody has won it. -/
def Claims.claim (c : Claims) (r : Rule) (slot : Field) (value : Option slot.Value)
    (name : String) : Claims :=
  match c.winners.get slot, value with
  | none, some v => ⟨c.winners.set slot (some (Contribution.ofRule r v)), c.won ++ [name]⟩
  | _, _ => c

/-- The claims of a rule, for the fields of its scope in turn. When safe mode
is requested, only switching it on is a value for it. -/
def Claims.claimAll (safeModeRequested : Bool) (c : Claims) (r : Rule) : Claims :=
  let v := r.content.action.values
  match r.content.action.scope with
  | .global =>
    -- Once safe mode is requested, a rule that switches it off has nothing to claim.
    let safeMode := if safeModeRequested then v.safeMode.filter id else v.safeMode
    c.claim r .safeMode safeMode "safe_mode"
  | .media =>
    c.claim r .forceImageQuality v.forceImageQuality "force_image_quality"
      |>.claim r .disableVideoAutoplay v.disableVideoAutoplay "disable_video_autoplay"
      |>.claim r .disableVideo v.disableVideo "disable_video"
      |>.claim r .disablePreloading v.disablePreloading "disable_preloading"
      |>.claim r .maxConcurrentMediaLoads v.maxConcurrentMediaLoads "max_concurrent_media_loads"
  | .network =>
    c.claim r .disableRetries v.disableRetries "disable_retries"
      |>.claim r .retryCount v.retryCount "retry_count"
      |>.claim r .timeoutMs v.timeoutMs "timeout_ms"
  | .ux =>
    c.claim r .skeletonOnly v.skeletonOnly "skeleton_only"
      |>.claim r .reduceAnimations v.reduceAnimations "reduce_animations"
      |>.claim r .uxWatchdogThresholdMs v.uxWatchdogThresholdMs "ux_watchdog_threshold_ms"
  | .ai => c.claim r .disableAi v.disableAi "disable_ai"

/-- What a winner brings about: its value, or the usual one where nobody won. -/
def valueOrDefault {α : Type} [Inhabited α] (slot : Option (Contribution α)) : α :=
  (slot.map Contribution.value).getD default

/-- What a winner brings about where there may be nothing. -/
def valueOrNull {α : Type} (slot : Option (Contribution α)) : Option α :=
  slot.map Contribution.value

namespace Resolved

/-- Nobody has won anything. -/
def start : Resolved := ⟨Table.ofFn fun _ => none, []⟩

/-- The rule switches safe mode on. -/
def requestsSafeMode (r : Rule) : Bool := r.content.action.value .safeMode == some true

/-- The rule takes what it wins, and has an entry if it wins anything. -/
def claim (safeModeRequested : Bool) (s : Resolved) (r : Rule) : Resolved :=
  let c := Claims.claimAll safeModeRequested ⟨s.winners, []⟩ r
  { winners := c.winners
    applied := if c.won.isEmpty then s.applied else s.applied ++ [Applied.ofNames r c.won] }

/-- Goes through eligible rules in order of precedence. -/
def ofEligible (rules : List Rule) : Resolved :=
  (Rule.sortByPrecedence rules).foldl (claim (rules.any requestsSafeMode)) start

/-- The settings that the winners bring about. -/
def settings (s : Resolved) : Settings where
  safeMode := valueOrDefault s.winners.safeMode
  forceImageQuality := valueOrDefault s.winners.forceImageQuality
  disableVideoAutoplay := valueOrDefault s.winners.disableVideoAutoplay
  disableVideo := valueOrDefault s.winners.disableVideo
  disablePreloading := valueOrDefault s.winners.disablePreloading
  maxConcurrentMediaLoads := valueOrNull s.winners.maxConcurrentMediaLoads
  disableRetries := valueOrDefault s.winners.disableRetries
  retryCount := valueOrNull s.winners.retryCount
  timeoutMs := valueOrNull s.winners.timeoutMs
  skeletonOnly := valueOrDefault s.winners.skeletonOnly
  reduceAnimations := valueOrDefault s.winners.reduceAnimations
  uxWatchdogThresholdMs := valueOrNull s.winners.uxWatchdogThresholdMs
  disableAi := valueOrDefault s.winners.disableAi

end Resolved

/-! ### The wire form of the trace -/

namespace Applied

/-- The entry on the wire. -/
def toJson (a : Applied) : Json :=
  .object [
    ("fields", Json.ofTexts a.fields),
    ("priority", Json.ofNat a.priority.toNat),
    ("revision", Json.ofNat a.revision.toNat),
    ("rule_key", .string a.ruleKey.text),
    ("scope", a.scope.toJson)]

/-- What has been read of an entry. -/
structure Parts where
  ruleKey : Option String
  scope : Option Scope
  priority : Option UInt32
  revision : Option UInt64
  fields : Option (List String)

/-- Reads one part. -/
def Parts.put (p : Parts) (name : String) (v : Json) : Except Json.Mismatch Parts :=
  if name = "rule_key" then do return { p with ruleKey := some (← Json.asText v) }
  else if name = "scope" then do return { p with scope := some (← Scope.ofJson v) }
  else if name = "priority" then do return { p with priority := some (← Json.asUInt32 v) }
  else if name = "revision" then do return { p with revision := some (← Json.asUInt64 v) }
  else do return { p with fields := some (← Json.asList Json.asText v) }

/-- Reads an entry. -/
def ofJson (v : Json) : Except Json.Mismatch Applied := do
  let p ← Json.foldRecord .json
    ⟨"an applied rule", ["rule_key", "scope", "priority", "revision", "fields"], false, false⟩
    Parts.put ⟨none, none, none, none, none⟩ v
  return ⟨⟨← Json.required "rule_key" p.ruleKey⟩, ← Json.required "scope" p.scope,
    ← Json.required "priority" p.priority, ← Json.required "revision" p.revision,
    ← Json.required "fields" p.fields⟩

end Applied

end Overrides
