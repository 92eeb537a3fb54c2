import Overrides.Instant
import Overrides.Rule.Draft

/-!
# `Overrides.Rule`: stored rules

A stored rule is valid content with its bookkeeping: the revision that
the store gave it, and when and by whom it was first and last written.
Its wire form is read like a draft, so a stored rule is validated
again whenever it is read.
-/

set_option autoImplicit false

namespace Overrides

/-- A rule as a store keeps it. -/
structure Rule where
  content : Content
  revision : UInt64
  createdAt : Instant
  updatedAt : Instant
  createdBy : Option String
  updatedBy : Option String

namespace Rule

/-- The key of the rule. -/
def key (r : Rule) : RuleKey := r.content.ruleKey

/-- The scope that the rule writes into. -/
def scope (r : Rule) : Scope := r.content.scope

/-- The priority of the rule. -/
def priority (r : Rule) : UInt32 := r.content.priority

/-- The rule after `content` is written over `before`: what is known of
its creation is kept. -/
def written (before : Option Rule) (content : Content) (revision : UInt64)
    (actor : Option String) (time : Instant) : Rule :=
  match before with
  | some old => ⟨content, revision, old.createdAt, time, old.createdBy, actor⟩
  | none => ⟨content, revision, time, time, actor, actor⟩

/-- The order of precedence and of listings: higher priority first, then
higher revision. -/
def precedes (a b : Rule) : Bool :=
  b.priority < a.priority || (a.priority == b.priority && b.revision ≤ a.revision)

/-- Rules in order of precedence; equals keep their order. -/
def sortByPrecedence (rules : List Rule) : List Rule := rules.mergeSort precedes

/-! ### The wire form -/

/-- The rule on the wire, unless one of its instants cannot be written. -/
def toJson? (r : Rule) : Option Json := do
  let createdAt ← r.createdAt.toJson?
  let updatedAt ← r.updatedAt.toJson?
  return .object [
    ("action", r.content.action.toJson),
    ("created_at", createdAt),
    ("created_by", Json.ofOption .string r.createdBy),
    ("enabled", .bool r.content.enabled),
    ("match", if r.content.filter.isUnconditional then .null else r.content.filter.toJson),
    ("priority", Json.ofNat r.priority.toNat),
    ("revision", Json.ofNat r.revision.toNat),
    ("rule_key", .string r.key.text),
    ("scope", r.scope.toJson),
    ("updated_at", updatedAt),
    ("updated_by", Json.ofOption .string r.updatedBy)]

/-- What has been read of a rule: its bookkeeping, and the other members
in reverse. -/
structure Parts where
  revision : Option UInt64
  createdAt : Option Instant
  updatedAt : Option Instant
  createdBy : Option (Option String)
  updatedBy : Option (Option String)
  others : List (String × Json)

/-- Nothing read yet. -/
def Parts.empty : Parts := ⟨none, none, none, none, none, []⟩

/-- The value read for a field that must not have one yet. -/
def once {α : Type} (name : String) (old : Option α) (new : Except Json.Mismatch α) :
    Except Json.Mismatch (Option α) :=
  match old with
  | some _ => .error (.duplicateField name)
  | none => some <$> new

/-- Reads one member. -/
def Parts.put (p : Parts) (name : String) (v : Json) : Except Json.Mismatch Parts :=
  if name = "revision" then do
    return { p with revision := ← once name p.revision (Json.asUInt64 v) }
  else if name = "created_at" then do
    return { p with createdAt := ← once name p.createdAt (Instant.ofJson v) }
  else if name = "updated_at" then do
    return { p with updatedAt := ← once name p.updatedAt (Instant.ofJson v) }
  else if name = "created_by" then do
    return { p with createdBy := ← once name p.createdBy (Json.asOptional Json.asText v) }
  else if name = "updated_by" then do
    return { p with updatedBy := ← once name p.updatedBy (Json.asOptional Json.asText v) }
  else .ok { p with others := (name, v) :: p.others }

/-- The draft among members, each part once. -/
def draftOf (members : List (String × Json)) : Except Json.Mismatch Draft := do
  let (d, _) ← members.foldlM (fun (s : Draft × List String) m =>
    if Draft.shape.fields.contains m.1 then
      if s.2.contains m.1 then .error (.duplicateField m.1)
      else do return (← s.1.put m.1 m.2, m.1 :: s.2)
    else .ok s) (Draft.empty, [])
  return d

/-- The rule that was read. -/
def Parts.finish (p : Parts) : Except Json.Mismatch Rule := do
  let revision ← Json.required "revision" p.revision
  let createdAt ← Json.required "created_at" p.createdAt
  let updatedAt ← Json.required "updated_at" p.updatedAt
  let draft ← draftOf p.others.reverse
  let content ← draft.validate.mapError fun e => .refused e.message
  return ⟨content, revision, createdAt, updatedAt, p.createdBy.getD none, p.updatedBy.getD none⟩

/-- How messages name a stored rule. -/
def title : String := "struct RuleRecord"

/-- Reads a stored rule. -/
def ofJson : Json → Except Json.Mismatch Rule
  | .object members => do
    (← members.foldlM (fun p m => p.put m.1 m.2) Parts.empty).finish
  | v => .error (.invalidType (Json.found v) title)

open Json.Reader in
/-- Reads a stored rule from text. -/
def reader : Json.Reader Rule := do
  match ← peekToken with
  | none => unfinished .value
  | some b =>
    if b == 0x7b then
      drop
      -- Each member is put as it is read, so a repeated one is refused there.
      let parts ← foldMembers (fun name p => do
          colon
          match p.put name (← value (Json.maxDepth - 1)) with
          | .ok p => return p
          | .error cause => mismatch cause)
        ((← read) + 1) true Parts.empty
      match parts.finish with
      | .ok r => return r
      | .error cause => mismatch cause
    else if b == 0x5b then mismatch (.invalidType "sequence" title)
    else mismatch (.invalidType (Json.found (← scalar b)) title)

/-- Reads a stored rule from a whole text. -/
def parse (text : String) : Except Json.Fault Rule := reader.run (Text.Utf8.encode text)

end Rule

end Overrides
