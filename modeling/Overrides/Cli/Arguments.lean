import Overrides.Cli.Command

/-!
# `Overrides.Cli.Arguments`: reading the command line

Arguments are read from left to right, and the first one that is wrong
or asks for help decides. An option takes the argument after it, which
may not begin with a dash, or what stands after an equals sign. No
option may stand twice.
-/

set_option autoImplicit false

namespace Overrides.Cli

/-- Why a command line is refused. -/
inductive UsageFault where
  | unexpected (argument : String)
  | missingValue (name : String)
  | emptyValue (name : String)
  | repeated (name : String)
  | missingOption (name : String)
  | missingCommand
  deriving DecidableEq, Repr

/-- The wording of a usage fault. -/
def UsageFault.message : UsageFault → String
  | .unexpected argument => "unexpected argument '" ++ argument ++ "' found"
  | .missingValue name => "a value is required for '--" ++ name ++ "' but none was supplied"
  | .emptyValue name => "a value is required for '--" ++ name ++ "' but an empty one was supplied"
  | .repeated name => "the argument '--" ++ name ++ "' cannot be used multiple times"
  | .missingOption name => "the argument '--" ++ name ++ "' was not provided"
  | .missingCommand => "a command is required but none was provided"

/-- The values of options by their names. -/
abbrev Values := List (String × String)

/-- What a command line asks for. -/
inductive Invocation where
  /-- A help, with this text. -/
  | help (text : String)
  /-- The version of the program. -/
  | version
  /-- Nothing, which shows what there is. -/
  | overview
  | run (c : Command) (values : Values)
  deriving DecidableEq, Repr

/-- How an argument looks. -/
inductive Argument where
  /-- Two dashes alone: no option follows. -/
  | terminator
  /-- Two dashes and a name, perhaps with a value. -/
  | long (name : String) (value : Option String)
  /-- A dash and letters. -/
  | short (letters : List Char)
  | plain (text : String)

/-- How an argument looks. -/
def Argument.ofText (text : String) : Argument :=
  match text.toList with
  | ['-', '-'] => .terminator
  | '-' :: '-' :: cs =>
    let (name, rest) := cs.span (· ≠ '=')
    .long (String.ofList name)
      (match rest with
        | _ :: value => some (String.ofList value)
        | [] => none)
  | '-' :: c :: cs => .short (c :: cs)
  | _ => .plain text

/-- The argument asks for help. A letter for help counts whatever follows
it. -/
def Argument.asksHelp : Argument → Bool
  | .long "help" none => true
  | .short ('h' :: _) => true
  | _ => false

/-- The argument may be the value of the option before it. -/
def isValue (text : String) : Bool :=
  match Argument.ofText text with
  | .plain _ => true
  | _ => false

/-- Adds a value to the ones read so far. -/
def addValue (p : Parameter) (value : String) (values : Values) : Except UsageFault Values :=
  if p.isPath && value.isEmpty then .error (.emptyValue p.name)
  else if (values.lookup p.name).isSome then .error (.repeated p.name)
  else .ok (values ++ [(p.name, value)])

/-- Reads the options of a command. Where help is asked for there are no
values. -/
def readValues (ps : List Parameter) : List String → Values → Except UsageFault (Option Values)
  | [], values =>
    match ps.find? fun p => p.required && (values.lookup p.name).isNone with
    | some p => .error (.missingOption p.name)
    | none => .ok (some values)
  | text :: rest, values =>
    let argument := Argument.ofText text
    -- Help is asked for wherever it stands, before anything is missed.
    if argument.asksHelp then .ok none
    else match argument with
      | .terminator =>
        match rest with
        | [] => readValues ps [] values
        | next :: _ => .error (.unexpected next)
      | .long name attached =>
        match ps.find? (·.name = name), attached, rest with
        | none, _, _ => .error (.unexpected text)
        | some p, some value, rest => do readValues ps rest (← addValue p value values)
        | some p, none, value :: rest =>
          if isValue value then do readValues ps rest (← addValue p value values)
          else .error (.missingValue name)
        | some _, none, [] => .error (.missingValue name)
      | _ => .error (.unexpected text)

/-- Reads what follows the name of a command. -/
def readCommand (group : Option Group) (c : Command) (arguments : List String) :
    Except UsageFault Invocation := do
  match ← readValues c.parameters arguments [] with
  | some values => return .run c values
  | none => return .help (c.help group)

/-- Reads what follows the name of a group. -/
def readGroup (g : Group) : List String → Except UsageFault Invocation
  | [] => .error .missingCommand
  | text :: rest =>
    let argument := Argument.ofText text
    if argument.asksHelp then .ok (.help g.help)
    else match argument with
      | .plain name =>
        match g.commands.find? (·.name = name) with
        | some c => readCommand (some g) c rest
        | none => .error (.unexpected text)
      | .terminator => .error .missingCommand
      | _ => .error (.unexpected text)

/-- Reads a command line; `version` says that the version was asked for. -/
def readFrom (version : Bool) : List String → Except UsageFault Invocation
  | [] => .ok (if version then .version else .overview)
  | text :: rest =>
    let argument := Argument.ofText text
    if argument.asksHelp then .ok (.help programHelp)
    else match argument with
      | .plain name => do
        let invocation ← match entries.find? (·.name = name) with
          | some (.command c) => readCommand none c rest
          | some (.group g) => readGroup g rest
          | none => .error (.unexpected text)
        match invocation with
        | .help text => return .help text
        | invocation => return if version then .version else invocation
      | .long "version" none => if version then .error (.repeated "version") else readFrom true rest
      | .terminator =>
        match rest with
        | [] => .ok (if version then .version else .overview)
        | next :: _ => .error (.unexpected next)
      | _ => .error (.unexpected text)

/-- Reads a command line. -/
def read (arguments : List String) : Except UsageFault Invocation := readFrom false arguments

end Overrides.Cli
