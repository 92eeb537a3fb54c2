import Overrides.Config.Check
import Overrides.Config.Example
import Overrides.Config.Shape
import Overrides.Toml.Reader

/-!
# `Overrides.Config`: a configuration from its text

A configuration is a TOML document with the shape of the sections and
without flaws. The first of these three that fails names the fault.
-/

set_option autoImplicit false

namespace Overrides

/-- Why there is no configuration. -/
inductive ConfigFault where
  /-- The file could not be read, for this reason. -/
  | unreadable (reason : String)
  /-- The text is no TOML document. -/
  | malformed (cause : Toml.Fault)
  /-- The document has another shape. -/
  | mismatch (cause : Json.Mismatch)
  | invalid (flaw : ConfigFlaw)
  | pathTooLong
  | pathPartTooLong
  | fileTooLarge
  | fileNotText

/-- The wording of a configuration fault. -/
def ConfigFault.message : ConfigFault → String
  | .unreadable reason => "config io error: " ++ reason
  | .malformed cause => "config parse error: " ++ cause.message
  | .mismatch cause => "config parse error: " ++ cause.message
  | .invalid flaw => "invalid config: " ++ flaw.message
  | .pathTooLong => "invalid config: config path exceeds max length"
  | .pathPartTooLong => "invalid config: config path component too long"
  | .fileTooLarge => "invalid config: config file exceeds size limit"
  | .fileNotText => "invalid config: config file must be utf-8"

/-- The configuration that a text holds. -/
def Config.parse (text : String) : Except ConfigFault Config := do
  let entries ← (Toml.parse text).mapError .malformed
  let c ← (Config.ofJson (Toml.Value.table .header entries).toJson).mapError .mismatch
  c.check.mapError .invalid
  return c

end Overrides
