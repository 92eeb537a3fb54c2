import Overrides.Context
import Overrides.Field

/-!
# `Overrides.Rule.Fault`: why a rule is refused

One constructor per cause. The wording of every cause is here, and
nowhere else.
-/

set_option autoImplicit false

namespace Overrides

open Overrides.Text

/-- The most bytes a rule key may have. -/
def maxKeyBytes : Nat := 128

/-- The most values a filter may list for one dimension. -/
def maxFilterValues : Nat := 32

/-- The most bytes one filter value may have. -/
def maxFilterValueBytes : Nat := 128

/-- The greatest priority. -/
def maxPriority : Nat := 4294967295

/-- Why a filter is refused. -/
inductive FilterFault where
  | notObject
  | unknownDimension (name : String)
  | notText (dimension : Dimension)
  | tooMany (dimension : Dimension) (count : Nat)
  | valueTooLong (dimension : Dimension)
  | controlCharacter (dimension : Dimension)
  deriving DecidableEq, Repr

/-- Why a priority is refused. -/
inductive PriorityFault where
  /-- The value, as the message shows it, is no integer. -/
  | notInteger (shown : String)
  | negative (value : Int)
  | tooLarge (value : Int)
  deriving DecidableEq, Repr

/-- Why an action is refused. -/
inductive ActionFault where
  | notObject
  /-- A member that is no field of the scope. -/
  | unknownField (name : String)
  deriving DecidableEq, Repr

/-- Why a rule is refused. -/
inductive RuleFault where
  | missingKey
  | keyTooLong (bytes : Nat)
  | unknownScope (raw : String)
  | invalidPriority (cause : PriorityFault)
  | invalidFilter (cause : FilterFault)
  | invalidAction (scope : Scope) (cause : ActionFault)
  deriving DecidableEq, Repr

/-- The wording of a filter fault. -/
def FilterFault.message : FilterFault → String
  | .notObject => "match must be an object"
  | .unknownDimension name => "unknown dimension: " ++ name
  | .notText d => d.name ++ " values must be strings"
  | .tooMany d count =>
    d.name ++ " accepts at most " ++ Nat.repr maxFilterValues ++ " values (got "
      ++ Nat.repr count ++ ")"
  | .valueTooLong d => d.name ++ " value exceeds " ++ Nat.repr maxFilterValueBytes ++ " bytes"
  | .controlCharacter d => d.name ++ " value contains control characters"

/-- The wording of a priority fault. -/
def PriorityFault.message : PriorityFault → String
  | .notInteger shown => shown ++ " is not an integer"
  | .negative n => Int.repr n ++ " is negative"
  | .tooLarge n => Int.repr n ++ " exceeds " ++ Nat.repr maxPriority

/-- The names that the action of a rule in the scope may use, in the order in
which they are declared. -/
def Action.declared : Scope → List String
  | .global => ["safe_mode"]
  | .media =>
    ["force_image_quality", "disable_video_autoplay", "disable_video", "disable_preloading",
      "max_concurrent_media_loads"]
  | .network => ["disable_retries", "retry_count", "timeout_ms"]
  | .ux => ["skeleton_only", "reduce_animations", "ux_watchdog_threshold_ms"]
  | .ai => ["disable_ai"]

/-- The wording of an action fault in a scope. -/
def ActionFault.message (scope : Scope) : ActionFault → String
  | .notObject => "action must be an object"
  | .unknownField name => (Json.Mismatch.unknownField name (Action.declared scope)).message

/-- The wording of a rule fault. -/
def RuleFault.message : RuleFault → String
  | .missingKey => "rule_key is required"
  | .keyTooLong bytes =>
    "rule_key exceeds " ++ Nat.repr maxKeyBytes ++ " bytes (got " ++ Nat.repr bytes ++ ")"
  | .unknownScope raw =>
    "unknown scope: " ++ quoted raw ++ " (expected global, media, network, ux or ai)"
  | .invalidPriority cause => "invalid priority: " ++ cause.message
  | .invalidFilter cause => "invalid match: " ++ cause.message
  | .invalidAction scope cause =>
    "invalid " ++ scope.name ++ " action: " ++ cause.message scope

end Overrides
