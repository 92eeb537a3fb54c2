import Overrides.Rule

/-!
# `Overrides.Store.Audit`: the trail of changes

Every successful write leaves one record: which rule, by whom and
when, and the rule before and after. A record whose rule had no
earlier state is a creation, any other one an update.
-/

set_option autoImplicit false

namespace Overrides

/-- What a write did to its rule. -/
inductive AuditAction where
  | create
  | update
  deriving DecidableEq, Repr, Inhabited

namespace AuditAction

/-- All actions. -/
def all : List AuditAction := [.create, .update]

/-- The name on the wire. -/
def name : AuditAction → String
  | .create => "create"
  | .update => "update"

/-- The action of this exact name. -/
def ofName? (name : String) : Option AuditAction := all.find? (·.name == name)

/-- The action of a write over `before`. -/
def ofBefore (before : Option Rule) : AuditAction := if before.isSome then .update else .create

/-- The action as a value. -/
def toJson (a : AuditAction) : Json := .string a.name

/-- Reads an action by its exact name. -/
def ofJson : Json → Except Json.Mismatch AuditAction :=
  Json.asChoice .json (all.map fun a => (a.name, a))

end AuditAction

/-- One entry of the trail. -/
structure AuditRecord where
  id : UInt64
  ruleKey : RuleKey
  actor : Option String
  action : AuditAction
  before : Option Rule
  after : Rule
  time : Instant

namespace AuditRecord

/-- The record of a write. -/
def ofWrite (id : UInt64) (before : Option Rule) (after : Rule) : AuditRecord :=
  ⟨id, after.key, after.updatedBy, .ofBefore before, before, after, after.updatedAt⟩

/-- The record on the wire, unless an instant in it cannot be written. -/
def toJson? (r : AuditRecord) : Option Json := do
  let before ← match r.before with
    | some rule => rule.toJson?
    | none => some .null
  let after ← r.after.toJson?
  let time ← r.time.toJson?
  return .object [
    ("action", r.action.toJson),
    ("actor", Json.ofOption .string r.actor),
    ("after", after),
    ("audit_id", Json.ofNat r.id.toNat),
    ("before", before),
    ("recorded_at", time),
    ("rule_key", .string r.ruleKey.text)]

/-- What has been read of a record. -/
structure Parts where
  id : Option UInt64
  ruleKey : Option String
  actor : Option String
  action : Option AuditAction
  before : Option Rule
  after : Option Rule
  time : Option Instant

/-- Reads one part. -/
def Parts.put (p : Parts) (name : String) (v : Json) : Except Json.Mismatch Parts :=
  if name = "audit_id" then do return { p with id := some (← Json.asUInt64 v) }
  else if name = "rule_key" then do return { p with ruleKey := some (← Json.asText v) }
  else if name = "actor" then do return { p with actor := ← Json.asOptional Json.asText v }
  else if name = "action" then do return { p with action := some (← AuditAction.ofJson v) }
  else if name = "before" then do return { p with before := ← Json.asOptional Rule.ofJson v }
  else if name = "after" then do return { p with after := some (← Rule.ofJson v) }
  else do return { p with time := some (← Instant.ofJson v) }

/-- The parts of a record in declaration order. -/
def shape : Json.RecordShape :=
  ⟨"an audit record",
    ["audit_id", "rule_key", "actor", "action", "before", "after", "recorded_at"], false, false⟩

/-- Reads a record. -/
def ofJson (v : Json) : Except Json.Mismatch AuditRecord := do
  let p ← Json.foldRecord .json shape Parts.put ⟨none, none, none, none, none, none, none⟩ v
  return {
    id := ← Json.required "audit_id" p.id
    ruleKey := ⟨← Json.required "rule_key" p.ruleKey⟩
    actor := p.actor
    action := ← Json.required "action" p.action
    before := p.before
    after := ← Json.required "after" p.after
    time := ← Json.required "recorded_at" p.time }

end AuditRecord

end Overrides
