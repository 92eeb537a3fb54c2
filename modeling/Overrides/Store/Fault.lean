import Overrides.Digest
import Overrides.Json.Fault

/-!
# `Overrides.Store.Fault`: why a store fails

One constructor per cause. A cause belongs to a kind, and a message is
the lead of its kind followed by the wording of the cause. While a
database is being opened the leads are different ones.
-/

set_option autoImplicit false

namespace Overrides

/-- The most bytes that the text of a stored rule may have. -/
def maxRuleBytes : Nat := 65536

/-- Groups of causes. -/
inductive StoreFaultKind where
  | io
  | corrupt
  | versionMismatch
  | invalid
  /-- The engine below the store gave up. -/
  | engine
  deriving DecidableEq, Repr

/-- Why a store fails. -/
inductive StoreFault where
  /-- No revision is left. -/
  | revisionsExhausted
  /-- The engine refused a statement. -/
  | engineFailure
  /-- A file operation failed with this text. -/
  | fileFailure (text : String)
  /-- The greatest stored revision has no successor. -/
  | badRevisionCounter
  | hashMismatch (key : String)
  | negativeAuditId
  | unsupportedVersion (version : Int)
  /-- An instant of the rule has no written form. -/
  | unwritable
  | tooLarge (bytes : Nat)
  | unknownAlgorithm (label : String)
  /-- The stored text is no valid rule. -/
  | unreadable (cause : Json.Fault)
  /-- A row holds the rule of another key. -/
  | keyMismatch
  | unknownAction (label : String)
  | timeOutOfRange
  /-- The next revision does not fit its column. -/
  | revisionOverflow
  | emptyPath
  | pathTooLong
  | pathPartTooLong
  | pathIsDirectory
  deriving DecidableEq, Repr

namespace StoreFault

/-- The group of a cause. -/
def kind : StoreFault → StoreFaultKind
  | revisionsExhausted | engineFailure => .engine
  | fileFailure _ => .io
  | badRevisionCounter | hashMismatch _ | negativeAuditId => .corrupt
  | unsupportedVersion _ => .versionMismatch
  | unwritable | tooLarge _ | unknownAlgorithm _ | unreadable _ | keyMismatch | unknownAction _
  | timeOutOfRange | revisionOverflow | emptyPath | pathTooLong | pathPartTooLong
  | pathIsDirectory => .invalid

/-- The wording of a cause, without the lead of its kind. -/
def detail : StoreFault → String
  | revisionsExhausted => "revision counter exhausted"
  | engineFailure => "engine failure"
  | fileFailure text => text
  | badRevisionCounter => "invalid revision counter"
  | hashMismatch key => "hash mismatch for rule " ++ key
  | negativeAuditId => "negative audit_id"
  | unsupportedVersion version => "unsupported schema version: " ++ Int.repr version
  | unwritable => "failed to canonicalize json: the year of an instant is not in 0 to 9999"
  | tooLarge bytes =>
    "rule_json exceeds size limit: " ++ Nat.repr bytes ++ " bytes (max " ++ Nat.repr maxRuleBytes
      ++ ")"
  | unknownAlgorithm label => HashAlgorithm.unknownMessage label
  | unreadable cause => cause.message
  | keyMismatch => "rule_key mismatch between key and payload"
  | unknownAction label => "unknown audit action: " ++ label
  | timeOutOfRange => "recorded_at out of range"
  | revisionOverflow => "revision overflow"
  | emptyPath => "store path must not be empty"
  | pathTooLong => "store path exceeds length limit"
  | pathPartTooLong => "store path contains an overlong component"
  | pathIsDirectory => "store path must be a file, not a directory"

end StoreFault

/-- The lead of the messages of a kind. -/
def StoreFaultKind.lead : StoreFaultKind → String
  | .io => "rule store io error: "
  | .corrupt => "rule store corruption: "
  | .versionMismatch => "rule store version mismatch: "
  | .invalid => "rule store invalid data: "
  | .engine => "rule store error: "

/-- The lead of the messages of a kind while a database is being opened. -/
def StoreFaultKind.openingLead : StoreFaultKind → String
  | .io => "sqlite store io error: "
  | .corrupt => "sqlite store corruption: "
  | .versionMismatch => "sqlite store version mismatch: "
  | .invalid => "sqlite store invalid data: "
  | .engine => "sqlite store db error: "

/-- The wording of a fault. -/
def StoreFault.message (e : StoreFault) : String := e.kind.lead ++ e.detail

/-- The wording of a fault that a database is opened with. -/
def StoreFault.openingMessage (e : StoreFault) : String := e.kind.openingLead ++ e.detail

end Overrides
