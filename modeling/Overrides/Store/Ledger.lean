import Overrides.Store.Basic

/-!
# `Overrides.Store.Ledger`: the store in memory

A ledger holds the current rules, the trail and the last revision
given out. It is lost with the process, and it fails only when no
revision is left.
-/

set_option autoImplicit false

namespace Overrides

/-- Rules and their trail in memory. -/
structure Ledger where
  /-- The current rules, one for each key, in the order of their first write. -/
  rules : List Rule
  /-- The trail, newest first. -/
  records : List AuditRecord
  /-- The last revision given out. -/
  lastRevision : UInt64
  deriving Inhabited

namespace Ledger

/-- The ledger that nothing was written to. -/
def empty : Ledger := ⟨[], [], 0⟩

/-- The rule of a key. -/
def get? (l : Ledger) (key : RuleKey) : Option Rule := l.rules.find? (·.key = key)

/-- The rules with one of them put in place of the rule of its key. -/
def putRule (r : Rule) : List Rule → List Rule
  | [] => [r]
  | s :: rest => if s.key = r.key then r :: rest else s :: putRule r rest

/-- Writes a rule and its record. -/
def write (l : Ledger) (request : WriteRequest) : Except StoreFault Written × Ledger :=
  if l.lastRevision.toNat + 1 < UInt64.size then
    let revision := l.lastRevision + 1
    let before := l.get? request.key
    let rule := request.rule before revision
    let id := UInt64.ofNat (l.records.length + 1)
    (.ok ⟨rule, .ofBefore before⟩,
      ⟨putRule rule l.rules, .ofWrite id before rule :: l.records, revision⟩)
  else (.error .revisionsExhausted, l)

/-- The rules that a query asks for. -/
def list (l : Ledger) (q : Query) : List Rule := Rule.sortByPrecedence (l.rules.filter q.accepts)

/-- The newest records of a key, or of all. -/
def trail (l : Ledger) (key : Option RuleKey) (limit : Nat) : List AuditRecord :=
  (l.records.filter fun r => key.all (r.ruleKey = ·)).take limit

end Ledger

instance : RuleStore Ledger where
  write := Ledger.write
  get? l key := .ok (l.get? key)
  list l q := .ok (l.list q)
  trail l key limit := .ok (l.trail key limit)

end Overrides
