import Overrides.Config
import Overrides.Files.Tree

/-!
# `Overrides.Config.File`: the configuration in a file

The file is the one that was asked for, or the one that the
environment names, or one of a fixed name in the working directory.
-/

set_option autoImplicit false

namespace Overrides.Config

open Overrides.Text

/-- The name of the configuration file where none is asked for. -/
def defaultFileName : String := "divine-guard.toml"

/-- The environment variable that names the configuration file. -/
def environmentName : String := "DIVINE_GUARD_CONFIG"

/-- The most bytes a configuration file may have. -/
def maxFileBytes : Nat := 1048576

/-- The path of the configuration file. -/
def filePath (asked environment : Option String) : Except ConfigFault String := do
  let path := (asked <|> environment).getD defaultFileName
  if Path.isTooLong path then .error .pathTooLong
  if Path.hasLongPart path then .error .pathPartTooLong
  return path

/-- The configuration in the file at a path. -/
def read (files : FileTree) (path : String) : Except ConfigFault Config := do
  let bytes ← (files.read path).mapError fun e => ConfigFault.unreadable e.message
  if maxFileBytes < bytes.length then .error .fileTooLarge
  match Utf8.decode? bytes with
  | some text => parse text
  | none => .error .fileNotText

/-- The configuration in the file that was asked for, or in its stead. -/
def load (files : FileTree) (asked environment : Option String) : Except ConfigFault Config := do
  read files (← filePath asked environment)

end Overrides.Config
