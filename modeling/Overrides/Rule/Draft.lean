import Overrides.Json.Reader
import Overrides.Rule.Action
import Overrides.Rule.Filter
import Overrides.Rule.Key

/-!
# `Overrides.Rule.Draft`: rules as administrators submit them

A draft holds the submitted parts of a rule as they came. Validation
turns it into the content of a rule or names the first fault, in the
order key, scope, priority, filter, action. Whether the draft is
enabled, and what its action sets, never makes it invalid.
-/

set_option autoImplicit false

namespace Overrides

open Overrides.Text Overrides.Number

/-- A rule as submitted. -/
structure Draft where
  ruleKey : String
  scope : String
  enabled : Bool
  priority : Option Json
  filter : Option Json
  action : Option Json

/-- A draft with every part left out. -/
def Draft.empty : Draft := ⟨"", "", true, none, none, none⟩

/-- What a valid rule says. -/
structure Content where
  ruleKey : RuleKey
  enabled : Bool
  priority : UInt32
  filter : Filter
  action : Action

/-- The scope that the rule writes into. -/
def Content.scope (c : Content) : Scope := c.action.scope

namespace Draft

/-! ### Validation -/

/-- The integer that a whole text spells: a sign at most, then digits,
within 64 bits. -/
def integer? (text : String) : Option Int :=
  let (negative, digits) := match text.toList with
    | '-' :: rest => (true, rest)
    | '+' :: rest => (false, rest)
    | rest => (false, rest)
  if digits.isEmpty || !digits.all Char.isDigit then none
  else
    let n := digitsValue (digits.map fun c => c.toNat - '0'.toNat)
    if negative then (if n ≤ maxInt64 + 1 then some (Int.negOfNat n) else none)
    else (if n ≤ maxInt64 then some n else none)

/-- The integer of a submitted priority. -/
def priorityInteger : Json → Except PriorityFault Int
  | .number (.integer n) =>
    if n ≤ maxInt64 then .ok n else .error (.notInteger (Int.repr n))
  | .string s =>
    match integer? (trim s) with
    | some n => .ok n
    | none => .error (.notInteger (quoted s))
  | v => .error (.notInteger v.compact)

/-- The priority of a rule; zero where none is given. -/
def priorityOf : Option Json → Except PriorityFault UInt32
  | none | some .null => .ok 0
  | some v => do
    let n ← priorityInteger v
    if n < 0 then .error (.negative n)
    else if (maxPriority : Int) < n then .error (.tooLarge n)
    else .ok (UInt32.ofNat n.toNat)

/-- The content that a draft stands for, or its first fault. -/
def validate (d : Draft) : Except RuleFault Content := do
  let ruleKey ← RuleKey.parse d.ruleKey
  let scope ← match Scope.parse? d.scope with
    | some s => .ok s
    | none => .error (.unknownScope d.scope)
  let priority ← (priorityOf d.priority).mapError .invalidPriority
  let filter ← (Filter.ofJson d.filter).mapError .invalidFilter
  let action ← (Action.ofJson scope d.action).mapError (.invalidAction scope)
  return ⟨ruleKey, d.enabled, priority, filter, action⟩

/-! ### Values -/

/-- The parts of a draft in declaration order. -/
def shape : Json.RecordShape :=
  ⟨"a rule submission", ["rule_key", "scope", "enabled", "priority", "match", "action"],
    false, true⟩

/-- A part that may be any value; `null` counts as left out. -/
def part : Json → Option Json
  | .null => none
  | v => some v

/-- Reads one part into the draft. -/
def put (d : Draft) (name : String) (v : Json) : Except Json.Mismatch Draft :=
  if name = "rule_key" then do return { d with ruleKey := ← Json.asText v }
  else if name = "scope" then do return { d with scope := ← Json.asText v }
  else if name = "enabled" then .ok { d with enabled := (coerceFlag v).getD true }
  else if name = "priority" then .ok { d with priority := part v }
  else if name = "match" then .ok { d with filter := part v }
  else .ok { d with action := part v }

/-- Reads a draft from a value. -/
def ofJson (v : Json) : Except Json.Mismatch Draft :=
  Json.foldRecord .json shape put empty v

/-- The draft on the wire. -/
def toJson (d : Draft) : Json :=
  Json.ofMembers (
    [("rule_key", .string d.ruleKey), ("scope", .string d.scope), ("enabled", .bool d.enabled)]
      ++ (d.priority.map fun v => ("priority", v)).toList
      ++ (d.filter.map fun v => ("match", v)).toList
      ++ (d.action.map fun v => ("action", v)).toList)

/-! ### Text -/

open Json.Reader in
/-- Reads the value of a part, with room for so many open lists and
objects in it. -/
def readPart (room : Nat) (d : Draft) (name : String) : Json.Reader Draft := do
  let v ← if name = "rule_key" ∨ name = "scope" then Json.string <$> text else value room
  match put d name v with
  | .ok d => return d
  | .error cause => mismatch cause

open Json.Reader in
/-- Reads a member. A part may stand once only; a member that is no part
is skipped. -/
def readMember (room : Nat) (name : String) (s : Draft × List String) :
    Json.Reader (Draft × List String) := do
  if shape.fields.contains name then
    if s.2.contains name then mismatch (.duplicateField name)
    colon
    return (← readPart room s.1 name, name :: s.2)
  else
    colon
    skip
    return s

open Json.Reader in
/-- Reads the parts of a draft that is written as a list. -/
def readItems (room : Nat) : List String → Bool → Draft → Json.Reader Draft
  | [], _, d => pure d
  | name :: names, first, d => do
    if ← elementAhead first then readItems room names false (← readPart room d name)
    else return d

open Json.Reader in
/-- Reads a draft from text, with room for so many open lists and objects. -/
def reader (room : Nat) : Json.Reader Draft := do
  match ← peekToken with
  | none => unfinished .value
  | some b =>
    if b == 0x5b || b == 0x7b then
      match room with
      | 0 => malformed .tooDeep
      | room + 1 =>
        drop
        if b == 0x5b then
          let d ← readItems room shape.fields true empty
          closeList
          return d
        else return (← foldMembers (readMember room) ((← read) + 1) true (empty, [])).1
    else mismatch (.invalidType (Json.found (← scalar b)) shape.title)

/-- Reads a draft from a whole text. -/
def ofBytes (bytes : List UInt8) : Except Json.Fault Draft := (reader Json.maxDepth).run bytes

open Json.Reader in
/-- Reads a list of drafts from text. -/
def listReader : Json.Reader (List Draft) := do
  match ← peekToken with
  | none => unfinished .value
  | some b =>
    if b == 0x5b then
      drop
      let drafts ← foldElements
        (fun done => do return (← reader (Json.maxDepth - 1)) :: done) ((← read) + 1) true []
      return drafts.reverse
    else if b == 0x7b then mismatch (.invalidType "map" "a sequence")
    else mismatch (.invalidType (Json.found (← scalar b)) "a sequence")

/-- Reads a list of drafts from a whole text. -/
def listOfBytes (bytes : List UInt8) : Except Json.Fault (List Draft) := listReader.run bytes

end Draft

end Overrides
