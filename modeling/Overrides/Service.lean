import Overrides.Snapshot
import Overrides.Store.Basic

/-!
# `Overrides.Service`: a store behind limits

A service validates what administrators submit, keeps the number of
enabled rules within its limit, and compiles snapshots from the
enabled rules of a store. A submission that would leave more enabled
rules than the limit is refused before anything is written; a disabled
rule is never refused for the limit.
-/

set_option autoImplicit false

namespace Overrides

/-- Why a service refuses. -/
inductive ServiceFault where
  | rule (cause : RuleFault)
  | store (cause : StoreFault)
  /-- The store holds more enabled rules than the limit. -/
  | tooManyRules (count limit : Nat)
  /-- The submission would leave more enabled rules than the limit. -/
  | ruleLimitReached (limit : Nat)
  deriving DecidableEq, Repr

/-- The wording of a service fault. -/
def ServiceFault.message : ServiceFault → String
  | .rule cause => cause.message
  | .store cause => cause.message
  | .tooManyRules count limit =>
    "rule store holds " ++ Nat.repr count ++ " enabled rules (max " ++ Nat.repr limit ++ ")"
  | .ruleLimitReached limit =>
    "upsert would exceed the enabled rule limit (max " ++ Nat.repr limit ++ ")"

/-- The greatest number of enabled rules where none is configured. -/
def defaultMaxRules : Nat := 500

/-- How snapshots are compiled, and how many enabled rules there may be. -/
structure Service where
  compiler : Compiler
  maxRules : Nat
  deriving Inhabited

namespace Service

variable {σ : Type} [RuleStore σ]

/-- The snapshot of the enabled rules of a store. -/
def snapshot (service : Service) (s : σ) (context : Context) (time : Instant) :
    Except ServiceFault Snapshot := do
  let rules ← (RuleStore.list s .enabled).mapError .store
  if service.maxRules < rules.length then
    .error (.tooManyRules rules.length service.maxRules)
  return Snapshot.compile service.compiler rules context time

/-- There is room for an enabled rule under this key. -/
def checkRoom (service : Service) (s : σ) (key : RuleKey) : Except ServiceFault Unit := do
  let rules ← (RuleStore.list s .enabled).mapError .store
  -- The rule that is replaced makes room for itself.
  if service.maxRules ≤ (rules.filter (·.key ≠ key)).length then
    .error (.ruleLimitReached service.maxRules)

/-- What a submission asks the store to write, if the submission is valid
and within the limit. -/
def requestOf (service : Service) (s : σ) (draft : Draft) (actor : Option String) (time : Instant) :
    Except ServiceFault WriteRequest := do
  let content ← draft.validate.mapError .rule
  if content.enabled then service.checkRoom s content.ruleKey
  return ⟨content, actor, time⟩

/-- Validates a submission and writes it. -/
def submit (service : Service) (s : σ) (draft : Draft) (actor : Option String) (time : Instant) :
    Except ServiceFault Written × σ :=
  match service.requestOf s draft actor time with
  | .error e => (.error e, s)
  | .ok request =>
    let (outcome, next) := RuleStore.write s request
    (outcome.mapError .store, next)

/-- The rules that a query asks for. -/
def list (s : σ) (q : Query) : Except ServiceFault (List Rule) :=
  (RuleStore.list s q).mapError .store

/-- The newest audit records of a key, or of all. -/
def trail (s : σ) (key : Option RuleKey) (limit : Nat) : Except ServiceFault (List AuditRecord) :=
  (RuleStore.trail s key limit).mapError .store

end Service

end Overrides
