import Overrides.Store.Audit
import Overrides.Store.Fault

/-!
# `Overrides.Store.Basic`: what a rule store offers

A store keeps at most one rule per key and the trail of changes. A
write gives the rule the next revision and leaves one audit record; a
write that fails changes nothing. Listings stand in order of
precedence, the trail stands newest first.
-/

set_option autoImplicit false

namespace Overrides

/-- What is to be written, by whom and when. -/
structure WriteRequest where
  content : Content
  actor : Option String
  time : Instant

/-- The key that the request writes to. -/
def WriteRequest.key (r : WriteRequest) : RuleKey := r.content.ruleKey

/-- The rule that the request brings about over `before`. -/
def WriteRequest.rule (r : WriteRequest) (before : Option Rule) (revision : UInt64) : Rule :=
  .written before r.content revision r.actor r.time

/-- What a successful write did. -/
structure Written where
  rule : Rule
  action : AuditAction

/-- Which rules a listing asks for. -/
structure Query where
  /-- Rules of this scope only. -/
  scope : Option Scope
  /-- Enabled rules only. -/
  enabledOnly : Bool
  deriving DecidableEq, Repr, Inhabited

namespace Query

/-- Every rule. -/
def all : Query := ⟨none, false⟩

/-- Every enabled rule. -/
def enabled : Query := ⟨none, true⟩

/-- The rules of one scope. -/
def ofScope (s : Scope) : Query := ⟨some s, false⟩

/-- The listing has a place for the rule. -/
def accepts (q : Query) (r : Rule) : Bool :=
  q.scope.all (r.scope = ·) && (!q.enabledOnly || r.content.enabled)

end Query

/-- The outcome of a transaction and the state after it: the state stays
where the outcome is a fault. -/
def settle {σ ε α : Type} (s : σ) : Except ε (α × σ) → Except ε α × σ
  | .ok (a, next) => (.ok a, next)
  | .error e => (.error e, s)

/-- A kind of store whose states are of type `σ`. -/
class RuleStore (σ : Type) where
  /-- Writes a rule and its audit record. -/
  write : σ → WriteRequest → Except StoreFault Written × σ
  /-- The rule of a key. -/
  get? : σ → RuleKey → Except StoreFault (Option Rule)
  /-- The rules that a query asks for, in order of precedence. -/
  list : σ → Query → Except StoreFault (List Rule)
  /-- So many records at most, of one key or of all, newest first. -/
  trail : σ → Option RuleKey → Nat → Except StoreFault (List AuditRecord)

end Overrides
