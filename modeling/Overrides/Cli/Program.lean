import Overrides.Cli.Arguments
import Overrides.Config.File
import Overrides.Server.Startup

/-!
# `Overrides.Cli.Program`: running a command

A run takes the command line, the environment, the files and the time,
and ends with a status, what it wrote, and the files after it. Status
0 is success, 1 a failure that the error stream explains, 2 a command
line that cannot be read. A server that has started goes on outside.
-/

set_option autoImplicit false

namespace Overrides.Cli

/-- The most bytes a rule file may have. -/
def maxRuleFileBytes : Nat := 1048576

/-- The actor of an import where none is named. -/
def importActor : String := "cli"

/-- Why a command fails. -/
inductive Failure where
  | config (cause : ConfigFault)
  | start (cause : StartFault)
  | rulesUnreadable (path : String) (cause : FileFault)
  | rulesTooLarge (path : String) (bytes : Nat)
  | rulesMalformed (path : String) (cause : RuleFileFault)
  | compile (cause : RuleFileFault)
  | memoryStore
  | badActor (cause : ActorFault)
  | openStore (cause : StartFault)
  | importing (cause : RuleFileFault)
  | badScope (cause : RuleFault)
  | listing (cause : ServiceFault)
  /-- The result cannot be written. -/
  | unwritable

/-- The wording of a failure. -/
def Failure.message : Failure → String
  | .config cause => "failed to load config: " ++ cause.message
  | .start cause => "server init failed: " ++ cause.message
  | .rulesUnreadable path cause => "failed to read rule file " ++ path ++ ": " ++ cause.message
  | .rulesTooLarge path bytes =>
    "rule file " ++ path ++ " is too large (" ++ Nat.repr bytes ++ " bytes, limit "
      ++ Nat.repr maxRuleFileBytes ++ ")"
  | .rulesMalformed path cause => "failed to parse " ++ path ++ ": " ++ cause.message
  | .compile cause => "snapshot compile failed: " ++ cause.message
  | .memoryStore =>
    "rules import requires a sqlite rule_store; memory stores do not persist"
  | .badActor cause => "invalid --actor: " ++ cause.message
  | .openStore cause => "failed to open rule store: " ++ cause.message
  | .importing cause => "rules import failed: " ++ cause.message
  | .badScope cause => "invalid --scope: " ++ cause.message
  | .listing cause => "rules list failed: " ++ cause.message
  | .unwritable => "failed to encode output: " ++ StoreFault.unwritable.detail

/-- What a run depends on besides its command line. -/
structure Surroundings where
  /-- The configuration file that the environment names. -/
  configPath : Option String
  files : FileTree
  time : Instant

/-- How a run ended. -/
structure Outcome where
  status : Nat
  output : String
  errors : String
  files : FileTree

/-- A run that has ended, or a server that goes on. -/
inductive Result where
  | ended (outcome : Outcome)
  | serving (s : Started)

/-- A command at work: it may fail, and it may change the files. -/
abbrev Work (α : Type) := ExceptT Failure (StateM FileTree) α

/-- Stops with a failure, if there is one. -/
def check {ε α : Type} (wrap : ε → Failure) : Except ε α → Work α
  | .ok a => pure a
  | .error e => throw (wrap e)

/-- A value as a line of canonical JSON. -/
def line (v : Option Json) : Work String :=
  match v with
  | some v => pure (v.canonical ++ "\n")
  | none => throw .unwritable

section

variable (around : Surroundings) (values : Values)

/-- The configuration in the file that was asked for, or in its stead. -/
def config : Work Config := do
  check .config (Config.load (← get) (values.lookup "config") around.configPath)

/-- The submissions in a rule file. -/
def readRules (path : String) : Work (List Draft) := do
  let bytes ← check (.rulesUnreadable path) ((← get).read path)
  if maxRuleFileBytes < bytes.length then throw (.rulesTooLarge path bytes.length)
  check (.rulesMalformed path) (RuleFile.parse bytes)

/-- Compiles a snapshot from a rule file. -/
def compileSnapshot : Work String := do
  let c ← match values.lookup "config" with
    | some _ => config around values
    | none => pure Config.default
  let drafts ← readRules ((values.lookup "rules").getD "")
  let context := Context.ofRaw (values.lookup "app-version") (values.lookup "feature-key")
    (values.lookup "network-state")
  let s ← check .compile (RuleFile.compile c.service drafts context around.time)
  line s.toJson?

/-- What is written of one imported rule. -/
def importedJson (w : Written) : Json :=
  .object [("action", w.action.toJson), ("revision", Json.ofNat w.rule.revision.toNat),
    ("rule_key", .string w.rule.key.text)]

/-- Imports a rule file into the store of the configuration. -/
def importRules : Work String := do
  let c ← config around values
  if c.store.kind = .memory then throw .memoryStore
  let actor := (← check .badActor (normalizeActor (values.lookup "actor"))).getD importActor
  let drafts ← readRules ((values.lookup "input").getD "")
  let (store, files) ← check .openStore (c.openStore (← get))
  let (outcome, store) := RuleFile.submit c.service store drafts (some actor) around.time
  set (c.saveStore files store)
  let imported ← check .importing outcome
  line (some (.object [("imported", Json.ofNat imported.length),
    ("rules", .array (imported.map importedJson))]))

/-- Lists the rules of the store of the configuration. -/
def listRules : Work String := do
  let scope ← check .badScope (match values.lookup "scope" with
    | none => .ok none
    | some raw =>
      match Scope.parse? raw with
      | some s => .ok (some s)
      | none => .error (RuleFault.unknownScope raw))
  let c ← config around values
  let (store, files) ← check .openStore (c.openStore (← get))
  set (c.saveStore files store)
  let rules ← check .listing (Service.list store ⟨scope, false⟩)
  line (Json.array <$> rules.mapM Rule.toJson?)

/-- Does the work of a command but for `serve`, and gives its output. -/
def work : Command → Work String
  | .serve => pure ""
  | .configValidate => do
    let _ ← config around values
    return "config ok\n"
  | .configExample => pure Config.exampleText
  | .snapshotCompile => compileSnapshot around values
  | .rulesImport => importRules around values
  | .rulesList => listRules around values

/-- Starts the server of the configuration. -/
def serve : Work Started := do
  let c ← config around values
  check .start (c.start (← get) around.time)

end

/-- The run after a success. -/
def succeeded (output : String) (files : FileTree) : Result := .ended ⟨0, output, "", files⟩

/-- The run after a failure. -/
def failed (e : Failure) (files : FileTree) : Result := .ended ⟨1, "", e.message ++ "\n", files⟩

/-- Runs a command. -/
def runCommand (around : Surroundings) (values : Values) (c : Command) : Result :=
  if c = .serve then
    match (serve around values).run.run around.files with
    | (.ok s, _) => .serving s
    | (.error e, files) => failed e files
  else
    match (work around values c).run.run around.files with
    | (.ok output, files) => succeeded output files
    | (.error e, files) => failed e files

/-- Runs the program. -/
def run (arguments : List String) (around : Surroundings) : Result :=
  match read arguments with
  | .error e =>
    .ended ⟨2, "", "error: " ++ e.message ++ "\n\nFor more information, try '--help'.\n",
      around.files⟩
  | .ok (.help text) => succeeded text around.files
  | .ok .version => succeeded (programName ++ " " ++ programVersion ++ "\n") around.files
  | .ok .overview => succeeded (programHelp ++ "\n") around.files
  | .ok (.run c values) => runCommand around values c

end Overrides.Cli
