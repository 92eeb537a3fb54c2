import Overrides.Store.Basic

/-!
# `Overrides.Store.Database`: the store on disk

A database has a table of rules, a table of audit records and a
version. The row of a rule holds its canonical text with a hash, and
beside it the columns by which listings are selected and ordered. What
the tables hold is not trusted: reading a row checks the size, the
hash and the whole text, and then that the row holds the rule of its
own key. A listing fails with the first bad row.

Every write is one transaction. The next revision is one above the
greatest revision column. Audit numbers go on after the greatest ever
used.
-/

set_option autoImplicit false

namespace Overrides

open Overrides.Text

/-- A row of the table of rules. -/
structure RuleRow where
  key : String
  scope : String
  enabled : Int
  priority : Int
  revision : Int
  text : List UInt8
  hash : String
  algorithm : String
  updatedAt : Int
  deriving DecidableEq, Inhabited

/-- A row of the audit table. -/
structure AuditRow where
  id : Int
  key : String
  actor : Option String
  action : String
  before : Option (List UInt8)
  after : List UInt8
  recordedAt : Int
  deriving DecidableEq, Inhabited

/-- What a database file holds. -/
structure Database where
  rules : List RuleRow
  /-- The audit table, newest row first. -/
  records : List AuditRow
  /-- The greatest audit number ever used. -/
  lastAuditId : Int
  /-- The version of the tables; none in a file without them. -/
  version : Option Int
  deriving DecidableEq, Inhabited

/-! ### Rows -/

/-- The canonical text of a rule, unless it cannot be written or is too long. -/
def encodeRule (r : Rule) : Except StoreFault (List UInt8) :=
  match r.toJson? with
  | none => .error .unwritable
  | some v =>
    let bytes := Utf8.encode v.canonical
    if maxRuleBytes < bytes.length then .error (.tooLarge bytes.length) else .ok bytes

/-- The rule that a stored text holds. -/
def decodeRule (bytes : List UInt8) : Except StoreFault Rule :=
  (Rule.reader.run bytes).mapError .unreadable

namespace RuleRow

/-- The row of a rule with its canonical text. -/
def ofRule (r : Rule) (text : List UInt8) : RuleRow where
  key := r.key.text
  scope := r.scope.name
  enabled := if r.content.enabled then 1 else 0
  priority := r.priority.toNat
  revision := r.revision.toNat
  text := text
  hash := (Digest.ofBytes .sha256 text).value
  algorithm := HashAlgorithm.sha256.label
  updatedAt := r.updatedAt.millis

/-- The rule that a row holds, once everything about it is verified. -/
def rule (row : RuleRow) : Except StoreFault Rule := do
  if maxRuleBytes < row.text.length then .error (.tooLarge row.text.length)
  let algorithm ← match HashAlgorithm.ofLabel? row.algorithm with
    | some a => .ok a
    | none => .error (.unknownAlgorithm row.algorithm)
  unless (Digest.mk algorithm row.hash).verifies row.text do .error (.hashMismatch row.key)
  let rule ← decodeRule row.text
  if rule.key.text = row.key then .ok rule else .error .keyMismatch

/-- A query selects the row, going by its columns. -/
def selectedBy (q : Query) (row : RuleRow) : Bool :=
  q.scope.all (row.scope = ·.name) && (!q.enabledOnly || row.enabled = 1)

/-- The order of listings, going by the columns. -/
def precedes (a b : RuleRow) : Bool :=
  b.priority < a.priority || (a.priority = b.priority && b.revision ≤ a.revision)

end RuleRow

namespace AuditRow

/-- The row of a write. -/
def ofWrite (id : Int) (action : AuditAction) (r : Rule) (before : Option (List UInt8))
    (after : List UInt8) : AuditRow :=
  ⟨id, r.key.text, r.updatedBy, action.name, before, after, r.updatedAt.millis⟩

/-- The record that a row holds. -/
def record (row : AuditRow) : Except StoreFault AuditRecord := do
  let action ← match AuditAction.ofName? row.action with
    | some a => .ok a
    | none => .error (.unknownAction row.action)
  let before ← match row.before with
    | some bytes => some <$> decodeRule bytes
    | none => .ok none
  let after ← decodeRule row.after
  let time ← match Instant.ofMillis row.recordedAt with
    | some t => .ok t
    | none => .error .timeOutOfRange
  -- The number is looked at last, after all that the record is made of.
  if row.id < 0 then .error .negativeAuditId
  return ⟨UInt64.ofNat row.id.toNat, ⟨row.key⟩, row.actor, action, before, after, time⟩

end AuditRow

/-! ### Operations -/

namespace Database

/-- The version of the tables. -/
def tableVersion : Int := 1

/-- The greatest integer that a column holds. -/
def maxInteger : Int := 9223372036854775807

/-- A file without tables. -/
def blank : Database := ⟨[], [], 0, none⟩

/-- Opens a file: tables are made where there are none, and tables of
another version are refused. -/
def opened (d : Database) : Except StoreFault Database :=
  match d.version with
  | none => .ok { d with version := some tableVersion }
  | some v => if v = tableVersion then .ok d else .error (.unsupportedVersion v)

/-- The database that has just been made. -/
def empty : Database := { blank with version := some tableVersion }

/-- The rule of a key. -/
def get? (d : Database) (key : RuleKey) : Except StoreFault (Option Rule) :=
  match d.rules.find? (·.key = key.text) with
  | some row => some <$> row.rule
  | none => .ok none

/-- The greatest of the revision columns; zero without rows. -/
def lastRevision (d : Database) : Int :=
  match d.rules with
  | [] => 0
  | row :: rows => rows.foldl (fun n r => max n r.revision) row.revision

/-- The revision of the next write. -/
def nextRevision (d : Database) : Except StoreFault UInt64 :=
  if 0 ≤ d.lastRevision ∧ d.lastRevision + 1 < UInt64.size then
    .ok (UInt64.ofNat (d.lastRevision + 1).toNat)
  else .error .badRevisionCounter

/-- The number of the next audit row. -/
def nextAuditId (d : Database) : Except StoreFault Int :=
  let last := match d.records with
    | [] => d.lastAuditId
    | row :: rows => max d.lastAuditId (rows.foldl (fun n r => max n r.id) row.id)
  -- The engine counts on from the greatest number that is in use or ever was.
  if last < maxInteger then .ok (last + 1) else .error .engineFailure

/-- The rows with one of them put in place of the row of its key. -/
def putRow (row : RuleRow) : List RuleRow → List RuleRow
  | [] => [row]
  | r :: rest => if r.key = row.key then row :: rest else r :: putRow row rest

/-- The transaction that writes a rule and its record. -/
def transaction (d : Database) (request : WriteRequest) :
    Except StoreFault (Written × Database) := do
  let before ← d.get? request.key
  let revision ← d.nextRevision
  let rule := request.rule before revision
  let text ← encodeRule rule
  -- The column has a sign, so it holds half of the revisions.
  if maxInteger < revision.toNat then .error .revisionOverflow
  let textBefore ← match before with
    | some old => some <$> encodeRule old
    | none => .ok none
  let id ← d.nextAuditId
  let action := AuditAction.ofBefore before
  return (⟨rule, action⟩, { d with
    rules := putRow (.ofRule rule text) d.rules
    records := .ofWrite id action rule textBefore text :: d.records
    lastAuditId := id })

/-- Writes a rule and its record; a transaction that fails is undone. -/
def write (d : Database) (request : WriteRequest) : Except StoreFault Written × Database :=
  settle d (d.transaction request)

/-- The rules that a query asks for. -/
def list (d : Database) (q : Query) : Except StoreFault (List Rule) :=
  ((d.rules.filter (RuleRow.selectedBy q)).mergeSort RuleRow.precedes).mapM RuleRow.rule

/-- The newest records of a key, or of all. -/
def trail (d : Database) (key : Option RuleKey) (limit : Nat) :
    Except StoreFault (List AuditRecord) :=
  (((d.records.filter fun r => key.all (r.key = ·.text)).mergeSort
    fun a b => b.id ≤ a.id).take limit).mapM AuditRow.record

end Database

instance : RuleStore Database where
  write := Database.write
  get? := Database.get?
  list := Database.list
  trail := Database.trail

end Overrides
