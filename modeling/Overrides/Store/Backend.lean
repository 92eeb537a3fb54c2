import Overrides.Store.Database
import Overrides.Store.Ledger

/-!
# `Overrides.Store.Backend`: the store that a configuration names

A backend is a ledger in memory or a database on disk. Every operation
is that of the store inside.
-/

set_option autoImplicit false

namespace Overrides

/-- A store of either kind. -/
inductive Backend where
  | memory (ledger : Ledger)
  | disk (database : Database)
  deriving Inhabited

namespace Backend

/-- Writes to the store inside. -/
def write : Backend → WriteRequest → Except StoreFault Written × Backend
  | memory l, request =>
    let (outcome, l) := l.write request
    (outcome, memory l)
  | disk d, request =>
    let (outcome, d) := d.write request
    (outcome, disk d)

end Backend

instance : RuleStore Backend where
  write := Backend.write
  get?
    | .memory l => RuleStore.get? l
    | .disk d => RuleStore.get? d
  list
    | .memory l => RuleStore.list l
    | .disk d => RuleStore.list d
  trail
    | .memory l => RuleStore.trail l
    | .disk d => RuleStore.trail d

end Overrides
