/-!
# `Overrides.Cli.Command`: the commands and their help

A command stands alone or in a group, and takes options with one value
each. The help of a command, a group or the whole program shows how it
is used and lists what can follow.
-/

set_option autoImplicit false

namespace Overrides.Cli

/-- The name of the program. -/
def programName : String := "divine-guard"

/-- The version of the program. -/
def programVersion : String := "0.1.0"

/-- An option with a value. -/
structure Parameter where
  name : String
  placeholder : String
  about : String
  required : Bool
  /-- The value is a path and cannot be empty. -/
  isPath : Bool

/-- A command. -/
inductive Command where
  | serve
  | configValidate
  | configExample
  | snapshotCompile
  | rulesImport
  | rulesList
  deriving DecidableEq, Repr, Inhabited

namespace Command

/-- The name of the command in its group. -/
def name : Command → String
  | serve => "serve"
  | configValidate => "validate"
  | configExample => "example"
  | snapshotCompile => "compile"
  | rulesImport => "import"
  | rulesList => "list"

/-- What the command does. -/
def about : Command → String
  | serve => "Run the HTTP control-plane server"
  | configValidate => "Validate a config file"
  | configExample => "Print a canonical example config"
  | snapshotCompile => "Compile a snapshot from a rule file without a running server"
  | rulesImport => "Upsert every rule in a file into the configured store"
  | rulesList => "List stored rules"

/-- The option for the configuration file. -/
def configParameter : Parameter :=
  ⟨"config", "PATH", "Optional config file path (defaults to divine-guard.toml or env override)",
    false, true⟩

/-- The options of the command. -/
def parameters : Command → List Parameter
  | serve => [configParameter]
  | configValidate => [configParameter]
  | configExample => []
  | snapshotCompile => [
      ⟨"rules", "FILE", "JSON array of rule upsert payloads", true, true⟩,
      ⟨"app-version", "VERSION", "Client app version to compile for", false, false⟩,
      ⟨"feature-key", "KEY", "Feature key to compile for", false, false⟩,
      ⟨"network-state", "STATE", "Network state to compile for", false, false⟩,
      ⟨"config", "PATH", "Optional config file for safe-mode values and snapshot limits",
        false, true⟩]
  | rulesImport => [
      ⟨"input", "FILE", "JSON array of rule upsert payloads", true, true⟩,
      configParameter,
      ⟨"actor", "ACTOR", "Actor recorded on each upsert", false, false⟩]
  | rulesList => [
      ⟨"scope", "SCOPE", "Restrict the listing to one scope", false, false⟩,
      configParameter]

end Command

/-- A group of commands. -/
structure Group where
  name : String
  about : String
  commands : List Command

/-- What can follow the name of the program. -/
inductive Entry where
  | command (c : Command)
  | group (g : Group)

/-- The commands and groups of the program. -/
def entries : List Entry := [
  .command .serve,
  .group ⟨"config", "Configuration utilities", [.configValidate, .configExample]⟩,
  .group ⟨"snapshot", "Snapshot utilities", [.snapshotCompile]⟩,
  .group ⟨"rules", "Rule store utilities", [.rulesImport, .rulesList]⟩]

/-- The name of an entry. -/
def Entry.name : Entry → String
  | command c => c.name
  | group g => g.name

/-- What an entry is for. -/
def Entry.about : Entry → String
  | command c => c.about
  | group g => g.about

/-! ### Help -/

/-- Rows of two columns, the second one aligned. -/
def table (rows : List (String × String)) : String :=
  let width := rows.foldl (fun n r => max n r.1.length) 0
  String.join (rows.map fun r =>
    r.1 ++ String.ofList (List.replicate (width - r.1.length + 2) ' ') ++ r.2 ++ "\n")

/-- How a parameter is written. -/
def Parameter.spelling (p : Parameter) : String := "--" ++ p.name ++ " <" ++ p.placeholder ++ ">"

/-- The row of the option that asks for help. -/
def helpRow : String × String := ("  -h, --help", "Print help")

/-- The part of a help that lists options. -/
def optionsPart (rows : List (String × String)) : String :=
  "Options:\n" ++ table (rows ++ [helpRow])

/-- The part of a help that lists commands. -/
def commandsPart (rows : List (String × String)) : String :=
  "Commands:\n" ++ table (rows.map fun r => ("  " ++ r.1, r.2)) ++ "\n"

/-- The front of a help: what it is about, and how it is used. -/
def usagePart (about usage : String) : String :=
  about ++ "\n\nUsage: " ++ programName ++ usage ++ "\n\n"

/-- The help of the program. -/
def programHelp : String :=
  usagePart "Divine Guard command-line interface" " [COMMAND]"
    ++ commandsPart (entries.map fun e => (e.name, e.about))
    ++ optionsPart [("      --version", "Print the CLI version and exit")]

/-- The help of a group. -/
def Group.help (g : Group) : String :=
  usagePart g.about (" " ++ g.name ++ " <COMMAND>")
    ++ commandsPart (g.commands.map fun c => (c.name, c.about))
    ++ optionsPart []

/-- The help of a command under a group, or alone. -/
def Command.help (group : Option Group) (c : Command) : String :=
  let (required, optional) := c.parameters.partition (·.required)
  usagePart c.about (
    (match group with
      | some g => " " ++ g.name
      | none => "")
    ++ " " ++ c.name
    ++ (if optional.isEmpty then "" else " [OPTIONS]")
    ++ String.join (required.map fun p => " " ++ p.spelling))
  ++ optionsPart (c.parameters.map fun p => ("      " ++ p.spelling, p.about))

end Overrides.Cli
