import Overrides.Rule.Fault

/-!
# `Overrides.Rule.Key`: rule keys

A rule key identifies a rule; writing a rule under a key that exists
replaces the rule there. A key that an administrator submits is
trimmed, and then has 1 to 128 bytes.
-/

set_option autoImplicit false

namespace Overrides

open Overrides.Text

/-- The identifier of a rule. -/
structure RuleKey where
  text : String
  deriving DecidableEq, Repr, Inhabited

/-- The key that a text stands for. -/
def RuleKey.parse (raw : String) : Except RuleFault RuleKey :=
  let text := trim raw
  if text.isEmpty then .error .missingKey
  else if maxKeyBytes < text.utf8ByteSize then .error (.keyTooLong text.utf8ByteSize)
  else .ok ⟨text⟩

end Overrides
