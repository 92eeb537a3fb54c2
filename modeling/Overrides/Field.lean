import Overrides.Scope

/-!
# `Overrides.Field`: the thirteen settings

A field belongs to one scope and is of one kind: a flag, an image
quality, or a limit with a ceiling. The kind says what a rule may set
it to and what a snapshot holds for it. `Table α` keeps one entry per
field; `get_ofFn`, `ext_get` and `get_set` are all that is needed to
reason about it.
-/

set_option autoImplicit false

namespace Overrides

open Overrides.Text

/-- A tier of image quality. `auto` leaves the choice to the client. -/
inductive ImageQuality where
  | auto
  | low
  | medium
  | high
  deriving DecidableEq, Repr, Inhabited

namespace ImageQuality

/-- The tiers in order. -/
def all : List ImageQuality := [.auto, .low, .medium, .high]

/-- The name on the wire. -/
def name : ImageQuality → String
  | .auto => "auto"
  | .low => "low"
  | .medium => "medium"
  | .high => "high"

/-- The tier that a text names, blanks and ASCII case aside; any other
text stands for `auto`. -/
def parseLenient (raw : String) : ImageQuality :=
  (all.find? (·.name == lowerAscii (trim raw))).getD .auto

/-- The tier as a value. -/
def toJson (q : ImageQuality) : Json := .string q.name

/-- Reads a tier by its exact name. -/
def ofJson (e : Json.Encoding) : Json → Except Json.Mismatch ImageQuality :=
  Json.asChoice e (all.map fun q => (q.name, q))

end ImageQuality

/-- What kind of setting a field is. -/
inductive Kind where
  | flag
  | quality
  /-- A positive number up to a ceiling, or no limit at all. -/
  | limit (ceiling : UInt32)
  deriving DecidableEq, Repr

/-- What a rule sets a field of this kind to. -/
abbrev Kind.Value : Kind → Type
  | .flag => Bool
  | .quality => ImageQuality
  | .limit _ => UInt32

/-- What a snapshot holds for a field of this kind. -/
abbrev Kind.Setting : Kind → Type
  | .flag => Bool
  | .quality => ImageQuality
  | .limit _ => Option UInt32

/-- A setting that rules can override. -/
inductive Field where
  | safeMode
  | forceImageQuality
  | disableVideoAutoplay
  | disableVideo
  | disablePreloading
  | maxConcurrentMediaLoads
  | disableRetries
  | retryCount
  | timeoutMs
  | skeletonOnly
  | reduceAnimations
  | uxWatchdogThresholdMs
  | disableAi
  deriving DecidableEq, Repr, Inhabited

namespace Field

/-- The fields in declaration order, scope by scope. -/
def all : List Field :=
  [.safeMode,
   .forceImageQuality, .disableVideoAutoplay, .disableVideo, .disablePreloading,
   .maxConcurrentMediaLoads,
   .disableRetries, .retryCount, .timeoutMs,
   .skeletonOnly, .reduceAnimations, .uxWatchdogThresholdMs,
   .disableAi]

/-- The scope that owns the field. -/
def scope : Field → Scope
  | .safeMode => .global
  | .forceImageQuality | .disableVideoAutoplay | .disableVideo | .disablePreloading
  | .maxConcurrentMediaLoads => .media
  | .disableRetries | .retryCount | .timeoutMs => .network
  | .skeletonOnly | .reduceAnimations | .uxWatchdogThresholdMs => .ux
  | .disableAi => .ai

/-- The name on the wire. -/
def name : Field → String
  | .safeMode => "safe_mode"
  | .forceImageQuality => "force_image_quality"
  | .disableVideoAutoplay => "disable_video_autoplay"
  | .disableVideo => "disable_video"
  | .disablePreloading => "disable_preloading"
  | .maxConcurrentMediaLoads => "max_concurrent_media_loads"
  | .disableRetries => "disable_retries"
  | .retryCount => "retry_count"
  | .timeoutMs => "timeout_ms"
  | .skeletonOnly => "skeleton_only"
  | .reduceAnimations => "reduce_animations"
  | .uxWatchdogThresholdMs => "ux_watchdog_threshold_ms"
  | .disableAi => "disable_ai"

/-- What kind of setting the field is. -/
abbrev kind : Field → Kind
  | .forceImageQuality => .quality
  | .maxConcurrentMediaLoads => .limit 50
  | .retryCount => .limit 10
  | .timeoutMs => .limit 120000
  | .uxWatchdogThresholdMs => .limit 120000
  | .safeMode | .disableVideoAutoplay | .disableVideo | .disablePreloading | .disableRetries
  | .skeletonOnly | .reduceAnimations | .disableAi => .flag

/-- What a rule sets the field to. -/
abbrev Value (f : Field) : Type := f.kind.Value

/-- What a snapshot holds for the field. -/
abbrev Setting (f : Field) : Type := f.kind.Setting

/-- The fields of a scope in declaration order. -/
def ofScope (s : Scope) : List Field := all.filter (·.scope = s)

/-- The field of a scope with this exact name. -/
def find? (s : Scope) (name : String) : Option Field := (ofScope s).find? (·.name == name)

end Field

/-- One entry for every field. -/
structure Table (α : Field → Type) where
  safeMode : α .safeMode
  forceImageQuality : α .forceImageQuality
  disableVideoAutoplay : α .disableVideoAutoplay
  disableVideo : α .disableVideo
  disablePreloading : α .disablePreloading
  maxConcurrentMediaLoads : α .maxConcurrentMediaLoads
  disableRetries : α .disableRetries
  retryCount : α .retryCount
  timeoutMs : α .timeoutMs
  skeletonOnly : α .skeletonOnly
  reduceAnimations : α .reduceAnimations
  uxWatchdogThresholdMs : α .uxWatchdogThresholdMs
  disableAi : α .disableAi

namespace Table

variable {α : Field → Type}

/-- The entry of a field. -/
def get (t : Table α) : (f : Field) → α f
  | .safeMode => t.safeMode
  | .forceImageQuality => t.forceImageQuality
  | .disableVideoAutoplay => t.disableVideoAutoplay
  | .disableVideo => t.disableVideo
  | .disablePreloading => t.disablePreloading
  | .maxConcurrentMediaLoads => t.maxConcurrentMediaLoads
  | .disableRetries => t.disableRetries
  | .retryCount => t.retryCount
  | .timeoutMs => t.timeoutMs
  | .skeletonOnly => t.skeletonOnly
  | .reduceAnimations => t.reduceAnimations
  | .uxWatchdogThresholdMs => t.uxWatchdogThresholdMs
  | .disableAi => t.disableAi

/-- The table with these entries. -/
def ofFn (v : (f : Field) → α f) : Table α :=
  ⟨v _, v _, v _, v _, v _, v _, v _, v _, v _, v _, v _, v _, v _⟩

/-- The table with another entry for one field. -/
def set (t : Table α) (f : Field) (a : α f) : Table α :=
  ofFn fun g => if h : f = g then h ▸ a else t.get g

/-- A table made of a function has the values of the function. -/
@[simp] theorem get_ofFn (v : (f : Field) → α f) (f : Field) : (ofFn v).get f = v f := by
  cases f <;> rfl

/-- A table is what it holds for each field. -/
theorem ext_get {t u : Table α} (h : ∀ f, t.get f = u.get f) : t = u := by
  cases t
  cases u
  congr
  · exact h .safeMode
  · exact h .forceImageQuality
  · exact h .disableVideoAutoplay
  · exact h .disableVideo
  · exact h .disablePreloading
  · exact h .maxConcurrentMediaLoads
  · exact h .disableRetries
  · exact h .retryCount
  · exact h .timeoutMs
  · exact h .skeletonOnly
  · exact h .reduceAnimations
  · exact h .uxWatchdogThresholdMs
  · exact h .disableAi

/-- Setting one field of a table leaves the others. -/
theorem get_set (t : Table α) (f g : Field) (a : α f) :
    (t.set f a).get g = if h : f = g then h ▸ a else t.get g := by
  simp [set]

/-- A field that was set has the value that it was set to. -/
@[simp] theorem get_set_self (t : Table α) (f : Field) (a : α f) : (t.set f a).get f = a := by
  simp [get_set]

end Table

end Overrides
