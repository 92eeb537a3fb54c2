import Overrides.Store.Database

/-!
# `Overrides.Store.Image`: a database as the bytes of a file

The image of a database is a JSON object with its tables row by row.
Columns of bytes, which need not be text, stand in hexadecimal. Bytes
that are not such an object are no image.
-/

set_option autoImplicit false

namespace Overrides

open Overrides.Text

/-! ### Columns -/

/-- A column of bytes as a value. -/
def bytesJson (bytes : List UInt8) : Json := .string (hexBytes bytes)

/-- The value of a hexadecimal digit in lower case. -/
def hexDigit? (c : Char) : Option Nat :=
  if '0' ≤ c ∧ c ≤ '9' then some (c.toNat - '0'.toNat)
  else if 'a' ≤ c ∧ c ≤ 'f' then some (c.toNat - 'a'.toNat + 10)
  else none

/-- The bytes that pairs of hexadecimal digits spell. -/
def unhex? : List Char → Option (List UInt8)
  | [] => some []
  | [_] => none
  | high :: low :: rest => do
    let byte := UInt8.ofNat (16 * (← hexDigit? high) + (← hexDigit? low))
    return byte :: (← unhex? rest)

namespace Json

/-- The text that a member holds. -/
def textAt? (v : Json) (name : String) : Option String :=
  match v.member? name with
  | some (.string s) => some s
  | _ => none

/-- The integer that a member holds. -/
def integerAt? (v : Json) (name : String) : Option Int :=
  match v.member? name with
  | some (.number (.integer n)) => some n
  | _ => none

/-- The bytes that a member holds. -/
def bytesAt? (v : Json) (name : String) : Option (List UInt8) :=
  (v.textAt? name).bind fun s => unhex? s.toList

/-- What a member holds, or nothing where it is `null`. -/
def optionAt? {α : Type} (read : Json → String → Option α) (v : Json) (name : String) :
    Option (Option α) :=
  match v.member? name with
  | some .null => some none
  | _ => some <$> read v name

/-- The rows that a member holds. -/
def rowsAt? {α : Type} (read : Json → Option α) (v : Json) (name : String) : Option (List α) :=
  match v.member? name with
  | some (.array rows) => rows.mapM read
  | _ => none

end Json

/-! ### Rows -/

/-- The row as a value. -/
def RuleRow.toJson (row : RuleRow) : Json := .ofMembers [
  ("key", .string row.key),
  ("scope", .string row.scope),
  ("enabled", Json.ofInt row.enabled),
  ("priority", Json.ofInt row.priority),
  ("revision", Json.ofInt row.revision),
  ("text", bytesJson row.text),
  ("hash", .string row.hash),
  ("algorithm", .string row.algorithm),
  ("updated_at", Json.ofInt row.updatedAt)]

/-- The row that a value holds. -/
def RuleRow.ofJson? (v : Json) : Option RuleRow := do
  return {
    key := ← v.textAt? "key"
    scope := ← v.textAt? "scope"
    enabled := ← v.integerAt? "enabled"
    priority := ← v.integerAt? "priority"
    revision := ← v.integerAt? "revision"
    text := ← v.bytesAt? "text"
    hash := ← v.textAt? "hash"
    algorithm := ← v.textAt? "algorithm"
    updatedAt := ← v.integerAt? "updated_at" }

/-- The row as a value. -/
def AuditRow.toJson (row : AuditRow) : Json := .ofMembers [
  ("id", Json.ofInt row.id),
  ("key", .string row.key),
  ("actor", Json.ofOption .string row.actor),
  ("action", .string row.action),
  ("before", Json.ofOption bytesJson row.before),
  ("after", bytesJson row.after),
  ("recorded_at", Json.ofInt row.recordedAt)]

/-- The row that a value holds. -/
def AuditRow.ofJson? (v : Json) : Option AuditRow := do
  return {
    id := ← v.integerAt? "id"
    key := ← v.textAt? "key"
    actor := ← v.optionAt? Json.textAt? "actor"
    action := ← v.textAt? "action"
    before := ← v.optionAt? Json.bytesAt? "before"
    after := ← v.bytesAt? "after"
    recordedAt := ← v.integerAt? "recorded_at" }

/-! ### The whole -/

namespace Database

/-- The database as a value. -/
def toJson (d : Database) : Json := .ofMembers [
  ("rules", .array (d.rules.map RuleRow.toJson)),
  ("records", .array (d.records.map AuditRow.toJson)),
  ("last_audit_id", Json.ofInt d.lastAuditId),
  ("version", Json.ofOption Json.ofInt d.version)]

/-- The database that a value holds. -/
def ofJson? (v : Json) : Option Database := do
  return {
    rules := ← v.rowsAt? RuleRow.ofJson? "rules"
    records := ← v.rowsAt? AuditRow.ofJson? "records"
    lastAuditId := ← v.integerAt? "last_audit_id"
    version := ← v.optionAt? Json.integerAt? "version" }

/-- The image of a database. -/
def image (d : Database) : List UInt8 := Utf8.encode d.toJson.compact

/-- The database of an image. -/
def ofImage? (bytes : List UInt8) : Option Database := do
  let text ← Utf8.decode? bytes
  let v ← (Json.parse text).toOption
  ofJson? v

end Database

end Overrides
