import Overrides.Rule.Coercion
import Overrides.Rule.Fault

/-!
# `Overrides.Rule.Action`: what a rule writes

An action belongs to one scope and sets some of the fields of that
scope. Reading is strict about which fields may be named and lenient
about their values: a value that means nothing leaves its field unset.

The fields are spelled out once for each use: where they are read,
where they are named, and where they are written. Each list has names
and an order of its own.

* `Action.owned`: an action sets no field of another scope.
-/

set_option autoImplicit false

namespace Overrides

/-- A value for each field, where there is one. -/
abbrev Values := Table fun f => Option f.Value

/-- No field has a value. -/
def Values.unset : Values := Table.ofFn fun _ => none

/-- The fields that a rule sets, all of one scope. -/
structure Action where
  scope : Scope
  values : Values
  owned : ∀ f : Field, f.scope ≠ scope → values.get f = none

namespace Action

/-- The action of a scope that sets each of its fields as given. -/
def ofFn (scope : Scope) (v : (f : Field) → Option f.Value) : Action where
  scope := scope
  values := Table.ofFn fun f => if f.scope = scope then v f else none
  owned := by
    intro f h
    simp [h]

/-- What the action sets a field to. -/
def value (a : Action) (f : Field) : Option f.Value := a.values.get f

/-- The fields that the action sets. -/
def fields (a : Action) : List Field := Field.all.filter fun f => (a.value f).isSome

/-! ### Reading -/

/-- What the members of an object set in a scope. Each field is read in its
own way. -/
def valuesOf (scope : Scope) (member : String → Option Json) : Values :=
  match scope with
  | .global => { Values.unset with
      safeMode := (member "safe_mode").bind coerceFlag }
  | .media => { Values.unset with
      forceImageQuality := (member "force_image_quality").bind coerceQuality
      disableVideoAutoplay := (member "disable_video_autoplay").bind coerceFlag
      disableVideo := (member "disable_video").bind coerceFlag
      disablePreloading := (member "disable_preloading").bind coerceFlag
      maxConcurrentMediaLoads :=
        (member "max_concurrent_media_loads").bind (coerceLimit mediaLoadsCeiling) }
  | .network => { Values.unset with
      disableRetries := (member "disable_retries").bind coerceFlag
      retryCount := (member "retry_count").bind (coerceLimit retryCountCeiling)
      timeoutMs := (member "timeout_ms").bind (coerceLimit timeoutCeiling) }
  | .ux => { Values.unset with
      skeletonOnly := (member "skeleton_only").bind coerceFlag
      reduceAnimations := (member "reduce_animations").bind coerceFlag
      uxWatchdogThresholdMs :=
        (member "ux_watchdog_threshold_ms").bind (coerceLimit watchdogCeiling) }
  | .ai => { Values.unset with
      disableAi := (member "disable_ai").bind coerceFlag }

/-- Nothing of another scope is read. -/
theorem get_valuesOf_of_ne {scope : Scope} (member : String → Option Json) {f : Field}
    (h : f.scope ≠ scope) : (valuesOf scope member).get f = none := by
  cases scope <;> cases f <;> first | rfl | exact absurd rfl h

/-- The action that the members of an object make. -/
def ofMembers (scope : Scope) (member : String → Option Json) : Action :=
  ⟨scope, valuesOf scope member, fun _ h => get_valuesOf_of_ne member h⟩

/-- The first member that names no field of the scope. -/
def unknownMember? (scope : Scope) (members : List (String × Json)) : Option String :=
  (members.find? fun m => !(declared scope).contains m.1).map (·.1)

/-- Reads the members of an object. -/
def ofObject (scope : Scope) (members : List (String × Json)) : Except ActionFault Action :=
  match unknownMember? scope members with
  | some name => .error (.unknownField name)
  | none => .ok (ofMembers scope fun name => members.lookup name)

/-- Reads the action of a rule in a scope. Nothing and `null` set nothing. -/
def ofJson (scope : Scope) : Option Json → Except ActionFault Action
  | none | some .null => ofObject scope []
  | some (.object members) => ofObject scope members
  | some _ => .error .notObject

/-! ### Names -/

/-- The names of the fields in declaration order, each with whether it is set. -/
def marks (a : Action) : List (String × Bool) :=
  let v := a.values
  match a.scope with
  | .global => [("safe_mode", v.safeMode.isSome)]
  | .media => [
      ("force_image_quality", v.forceImageQuality.isSome),
      ("disable_video_autoplay", v.disableVideoAutoplay.isSome),
      ("disable_video", v.disableVideo.isSome),
      ("disable_preloading", v.disablePreloading.isSome),
      ("max_concurrent_media_loads", v.maxConcurrentMediaLoads.isSome)]
  | .network => [
      ("disable_retries", v.disableRetries.isSome),
      ("retry_count", v.retryCount.isSome),
      ("timeout_ms", v.timeoutMs.isSome)]
  | .ux => [
      ("skeleton_only", v.skeletonOnly.isSome),
      ("reduce_animations", v.reduceAnimations.isSome),
      ("ux_watchdog_threshold_ms", v.uxWatchdogThresholdMs.isSome)]
  | .ai => [("disable_ai", v.disableAi.isSome)]

/-- The names of the fields that the action sets. -/
def fieldNames (a : Action) : List String := (a.marks.filter (·.2)).map (·.1)

end Action

/-! ### Writing -/

/-- A limit on the wire. -/
def limitToJson (n : UInt32) : Json := Json.ofNat n.toNat

/-- A value that a rule sets, on the wire. -/
def Kind.valueToJson : (k : Kind) → k.Value → Json
  | .flag, b => .bool b
  | .quality, q => ImageQuality.toJson q
  | .limit _, n => limitToJson n

namespace Action

/-- The fields on the wire, those too that the action leaves unset. -/
def slots (a : Action) : List (String × Option Json) :=
  let v := a.values
  match a.scope with
  | .global => [("safe_mode", v.safeMode.map .bool)]
  | .media => [
      ("force_image_quality", v.forceImageQuality.map ImageQuality.toJson),
      ("disable_video_autoplay", v.disableVideoAutoplay.map .bool),
      ("disable_video", v.disableVideo.map .bool),
      ("disable_preloading", v.disablePreloading.map .bool),
      ("max_concurrent_media_loads", v.maxConcurrentMediaLoads.map limitToJson)]
  | .network => [
      ("disable_retries", v.disableRetries.map .bool),
      ("retry_count", v.retryCount.map limitToJson),
      ("timeout_ms", v.timeoutMs.map limitToJson)]
  | .ux => [
      ("skeleton_only", v.skeletonOnly.map .bool),
      ("reduce_animations", v.reduceAnimations.map .bool),
      ("ux_watchdog_threshold_ms", v.uxWatchdogThresholdMs.map limitToJson)]
  | .ai => [("disable_ai", v.disableAi.map .bool)]

/-- The members of the wire form: the fields that the action sets, in
declaration order. -/
def members (a : Action) : List (String × Json) :=
  a.slots.filterMap fun s => s.2.map fun v => (s.1, v)

/-- The action on the wire. -/
def toJson (a : Action) : Json := Json.ofMembers a.members

end Action

end Overrides
