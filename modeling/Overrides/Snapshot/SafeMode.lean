import Overrides.Snapshot.Settings

/-!
# `Overrides.Snapshot.SafeMode`: what safe mode forces

A policy fixes every setting for as long as safe mode is on. It is
read strictly: no field but its own twelve, no lenient values; a field
left out keeps its default.
-/

set_option autoImplicit false

namespace Overrides

/-- The settings that safe mode forces. Safe mode itself is on in them. -/
structure Policy where
  forced : Settings
  safe : forced.get .safeMode = true

namespace Policy

/-- The policy that forces these settings. -/
def ofSettings (t : Settings) : Policy := ⟨t.set .safeMode true, by simp⟩

/-- The policy where none is configured: the lowest quality, one media
load at a time, everything optional off. -/
def default : Policy :=
  ofSettings {
    safeMode := true
    forceImageQuality := .low
    disableVideoAutoplay := true
    disableVideo := true
    disablePreloading := true
    maxConcurrentMediaLoads := some 1
    disableRetries := true
    retryCount := none
    timeoutMs := none
    skeletonOnly := true
    reduceAnimations := true
    uxWatchdogThresholdMs := none
    disableAi := true }

instance : Inhabited Policy := ⟨default⟩

/-- The fields that a policy sets. -/
def fields : List Field := Field.all.filter (· ≠ .safeMode)

/-- The first limit that is zero or above its ceiling. -/
def outOfRange? (p : Policy) : Option Field :=
  fields.find? fun f => f.kind.isOutOfRange (p.forced.get f)

/-- The ceiling of a field; zero where it has none. -/
def ceiling (f : Field) : UInt32 :=
  match f.kind with
  | .limit c => c
  | _ => 0

/-- What is said of a limit that is out of range. -/
def outOfRangeMessage (f : Field) : String :=
  "safe_mode." ++ f.name ++ " must be between 1 and " ++ Nat.repr (ceiling f).toNat

/-- The policy on the wire. -/
def toJson (p : Policy) : Json :=
  Json.ofMembers (fields.map fun f => (f.name, f.kind.settingToJson (p.forced.get f)))

/-- Reads one field of a policy. -/
def put (e : Json.Encoding) (p : Policy) (name : String) (v : Json) :
    Except Json.Mismatch Policy :=
  match fields.find? (·.name == name) with
  | some f => do return ofSettings (p.forced.set f (← f.kind.readSetting e v))
  | none => .ok p

/-- Reads a policy. -/
def ofJson (e : Json.Encoding) (v : Json) : Except Json.Mismatch Policy :=
  Json.foldRecord e ⟨"a safe-mode policy", fields.map Field.name, true, true⟩ (put e) default v

end Policy

end Overrides
