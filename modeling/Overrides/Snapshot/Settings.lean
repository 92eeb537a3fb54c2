import Overrides.Field

/-!
# `Overrides.Snapshot.Settings`: the five scope objects

Settings hold one setting for every field. Where no rule has a say
the setting is the initial one of its kind: a flag is off, the image
quality is `auto`, there is no limit. On the wire the settings of a
scope stand in one object under the name of the scope.
-/

set_option autoImplicit false

namespace Overrides

namespace Kind

/-- The setting that no rule has touched. -/
def initial : (k : Kind) → k.Setting
  | .flag => false
  | .quality => ImageQuality.auto
  | .limit _ => none

/-- The setting that a value brings about. -/
def settingOf : (k : Kind) → k.Value → k.Setting
  | .flag, b => b
  | .quality, q => q
  | .limit _, n => some n

/-- A setting on the wire. -/
def settingToJson : (k : Kind) → k.Setting → Json
  | .flag, b => .bool b
  | .quality, q => ImageQuality.toJson q
  | .limit _, n => Json.ofOption (fun n : UInt32 => Json.ofNat n.toNat) n

/-- Reads a setting. -/
def readSetting (e : Json.Encoding) : (k : Kind) → Json → Except Json.Mismatch k.Setting
  | .flag => Json.asFlag
  | .quality => ImageQuality.ofJson e
  | .limit _ => Json.asOptional Json.asUInt32

/-- What a setting is that the wire form leaves out, if it may be. -/
def leftOut : (k : Kind) → Option k.Setting
  | .limit _ => some none
  | _ => none

/-- A limit that is zero or above its ceiling. -/
def isOutOfRange : (k : Kind) → k.Setting → Bool
  | .limit ceiling, some n => n == 0 || ceiling < n
  | _, _ => false

end Kind

/-- One setting for every field. -/
abbrev Settings := Table Field.Setting

namespace Settings

/-- The settings that no rule has touched. -/
def initial : Settings := Table.ofFn fun f => f.kind.initial

/-- A limit that may be missing, on the wire. -/
def nullableToJson (n : Option UInt32) : Json := Json.ofOption (fun n => Json.ofNat n.toNat) n

/-- The members of the object of one scope, in declaration order. -/
def scopeMembers (t : Settings) : Scope → List (String × Json)
  | .global => [("safe_mode", .bool t.safeMode)]
  | .media => [
      ("force_image_quality", ImageQuality.toJson t.forceImageQuality),
      ("disable_video_autoplay", .bool t.disableVideoAutoplay),
      ("disable_video", .bool t.disableVideo),
      ("disable_preloading", .bool t.disablePreloading),
      ("max_concurrent_media_loads", nullableToJson t.maxConcurrentMediaLoads)]
  | .network => [
      ("disable_retries", .bool t.disableRetries),
      ("retry_count", nullableToJson t.retryCount),
      ("timeout_ms", nullableToJson t.timeoutMs)]
  | .ux => [
      ("skeleton_only", .bool t.skeletonOnly),
      ("reduce_animations", .bool t.reduceAnimations),
      ("ux_watchdog_threshold_ms", nullableToJson t.uxWatchdogThresholdMs)]
  | .ai => [("disable_ai", .bool t.disableAi)]

/-- The object of one scope. -/
def scopeToJson (t : Settings) (s : Scope) : Json := Json.ofMembers (t.scopeMembers s)

/-- The objects of all scopes under their names. -/
def members (t : Settings) : List (String × Json) :=
  Scope.all.map fun s => (s.name, t.scopeToJson s)

/-- The settings on the wire. -/
def toJson (t : Settings) : Json := Json.ofMembers t.members

/-! ### Reading -/

/-- The settings read so far. -/
abbrev Partial := Table fun f => Option f.Setting

/-- Reads one setting of a scope. -/
def putField (s : Scope) (t : Partial) (name : String) (v : Json) :
    Except Json.Mismatch Partial :=
  match Field.find? s name with
  | some f => do return t.set f (some (← f.kind.readSetting .json v))
  | none => .ok t

/-- Fills in the settings that a scope object may leave out. -/
def fillScope (s : Scope) (t : Partial) : Except Json.Mismatch Partial :=
  (Field.ofScope s).foldlM (fun t f =>
    match t.get f with
    | some _ => .ok t
    | none => do return t.set f (some (← Json.required f.name f.kind.leftOut))) t

/-- How messages name the object of a scope. -/
def scopeTitle (s : Scope) : String := s.name ++ " settings"

/-- Reads the object of a scope. -/
def readScope (s : Scope) (t : Partial) (v : Json) : Except Json.Mismatch Partial := do
  let t ← Json.foldRecord .json
    ⟨scopeTitle s, (Field.ofScope s).map Field.name, false, false⟩ (putField s) t v
  fillScope s t

/-- Reads settings; every scope has to be there. -/
def ofJson (v : Json) : Except Json.Mismatch Settings := do
  let (t, seen) ← Json.foldRecord .json
    ⟨"the settings of every scope", Scope.all.map Scope.name, false, false⟩
    (fun (t, seen) name v =>
      match Scope.ofName? name with
      | some s => do return (← readScope s t v, s :: seen)
      | none => .ok (t, seen))
    ((Table.ofFn fun _ => none : Partial), ([] : List Scope)) v
  for s in Scope.all do
    unless seen.contains s do .error (.missingField s.name)
  return Table.ofFn fun f => (t.get f).getD f.kind.initial

end Settings

end Overrides
