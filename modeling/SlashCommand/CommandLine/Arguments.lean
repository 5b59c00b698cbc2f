import SlashCommand.Text.Affix

/-!
# Arguments

The command line has four commands: `execute` and `suggest` take the text of a command and say where
the bindings come from, `validate` and `bundle` take binding directories and bundle files.

Options begin with two dashes and take their value from behind an equals sign or from the next
argument, which must not begin with a dash unless it is nothing else.  Arguments behind `--` are no
options.  An option may be given once, except for `--bindings`.

Help can be asked for by `--help` or `-h` in every command and in front of them, and by the command
`help`, which takes the name of a command.  Who asks for help gets it even if something is missing or
what follows makes no sense, but not if what precedes makes none.
-/

namespace SlashCommand.CommandLine

/-- In which format results are printed. -/
inductive OutputFormat where
  | json
  | yaml
deriving DecidableEq, Repr

/-- Where bindings, fixtures and context come from, and how results are printed. -/
structure SessionOptions where
  config : Option String := none
  bindings : List String := []
  fixtures : Option String := none
  channel : Option String := none
  team : Option String := none
  format : OutputFormat := .json
deriving DecidableEq, Repr

/-- What help can be asked for: the program or one of its commands. -/
inductive Topic where
  | program
  | execute
  | suggest
  | validate
  | bundle
  | help
deriving DecidableEq, Repr

/-- The topic of a command with the given name. -/
def Topic.ofName? : String → Option Topic
  | "execute" => some .execute
  | "suggest" => some .suggest
  | "validate" => some .validate
  | "bundle" => some .bundle
  | "help" => some .help
  | _ => none

/-- A command and its arguments. -/
inductive Invocation where
  | help (topic : Topic)
  | execute (command : String) (submit : Bool) (options : SessionOptions)
  | suggest (text : String) (options : SessionOptions)
  | validate (inputs : List String)
  | bundle (inputs : List String) (output : String) (name description : Option String)
deriving DecidableEq, Repr

/-- How an option is used: as a switch, with a value once, or with a value any number of times; a
path must not be empty. -/
inductive OptionKind where
  | switch
  | text
  | path
  | paths
deriving DecidableEq, Repr

/-- The arguments of a command: the options that were given with their values, the other arguments,
and whether help is asked for behind them. -/
structure RawArguments where
  options : List (String × String) := []
  inputs : List String := []
  helpAsked : Bool := false

/-- Adds an option with its value. -/
def RawArguments.addOption? (raw : RawArguments) (kind : OptionKind) (name value : String) :
    Option RawArguments :=
  let again := kind ≠ .paths ∧ raw.options.any (·.1 == name)
  let blank := (kind = .path ∨ kind = .paths) ∧ value == ""
  if again ∨ blank then none else some { raw with options := raw.options ++ [(name, value)] }

/-- An option with a value behind an equals sign, taken apart. -/
def splitOption (argument : String) : String × Option String :=
  let name := argument.toList.takeWhile (· != '=')
  match argument.toList.drop name.length with
  | _ :: value => (String.ofList name, some (String.ofList value))
  | [] => (argument, none)

/-- The argument begins with a dash and has something behind it. -/
def isOption (argument : String) : Bool :=
  match argument.toList with
  | '-' :: _ :: _ => true
  | _ => false

/-- The argument asks for help. -/
def asksHelp (argument : String) : Bool :=
  argument == "--help" || argument.toList.take 2 == ['-', 'h']

/-- Sorts arguments into options and inputs; `none` where an option is unknown, lacks its value or
has one too many.  What follows a wish for help is not looked at. -/
def RawArguments.read? (kinds : List (String × OptionKind)) (raw : RawArguments) :
    List String → Option RawArguments
  | [] => some raw
  | argument :: rest =>
    if argument = "--" then some { raw with inputs := raw.inputs ++ rest }
    else if !isOption argument then
      RawArguments.read? kinds { raw with inputs := raw.inputs ++ [argument] } rest
    else if asksHelp argument then some { raw with helpAsked := true }
    else
      let (name, value) := splitOption argument
      match kinds.lookup name, value with
      | none, _ => none
      | some .switch, some _ => none
      | some .switch, none =>
        match raw.addOption? .switch name "" with
        | some raw => RawArguments.read? kinds raw rest
        | none => none
      | some kind, some value =>
        match raw.addOption? kind name value with
        | some raw => RawArguments.read? kinds raw rest
        | none => none
      | some kind, none =>
        match rest with
        | [] => none
        | value :: rest =>
          if isOption value then none
          else
            match raw.addOption? kind name value with
            | some raw => RawArguments.read? kinds raw rest
            | none => none

/-- The value of an option. -/
def RawArguments.value? (raw : RawArguments) (name : String) : Option String :=
  raw.options.lookup name

/-- The options of the commands that take the text of a command. -/
def sessionKinds : List (String × OptionKind) :=
  [("--config", .path), ("--bindings", .paths), ("--fixtures", .path), ("--channel", .text),
    ("--team", .text), ("--format", .text)]

/-- Where bindings, fixtures and context come from. -/
def RawArguments.session? (raw : RawArguments) : Option SessionOptions := do
  let format ← match raw.value? "--format" with
    | none => some .json
    | some "json" => some .json
    | some "yaml" => some .yaml
    | some _ => none
  some {
    config := raw.value? "--config"
    bindings := (raw.options.filter (·.1 == "--bindings")).map (·.2)
    fixtures := raw.value? "--fixtures"
    channel := raw.value? "--channel"
    team := raw.value? "--team"
    format }

/-- Help on a topic if it is asked for, and otherwise what the arguments call for. -/
def RawArguments.orHelp (raw : RawArguments) (topic : Topic) (invocation : Option Invocation) :
    Option Invocation :=
  if raw.helpAsked then some (.help topic) else invocation

/-- The inputs of a command that takes a single text, if there are not too many. -/
def RawArguments.atMostOne? (raw : RawArguments) : Option (Option String) :=
  if 1 < raw.inputs.length then none else some raw.inputs.head?

/-- The inputs of a command that takes paths, if none is empty. -/
def RawArguments.paths? (raw : RawArguments) : Option (List String) :=
  if raw.inputs.contains "" then none else some raw.inputs

/-- Reads the arguments of a call. -/
def Invocation.parse? : List String → Option Invocation
  | "execute" :: rest => do
    let raw ← RawArguments.read? (("--submit", .switch) :: sessionKinds) {} rest
    let options ← raw.session?
    let command ← raw.atMostOne?
    raw.orHelp .execute
      (command.map (.execute · (raw.value? "--submit").isSome options))
  | "suggest" :: rest => do
    let raw ← RawArguments.read? sessionKinds {} rest
    let options ← raw.session?
    let text ← raw.atMostOne?
    raw.orHelp .suggest (text.map (.suggest · options))
  | "validate" :: rest => do
    let raw ← RawArguments.read? [] {} rest
    let inputs ← raw.paths?
    raw.orHelp .validate (if inputs.isEmpty then none else some (.validate inputs))
  | "bundle" :: rest => do
    let raw ← RawArguments.read?
      [("--output", .path), ("--name", .text), ("--description", .text)] {} rest
    let inputs ← raw.paths?
    raw.orHelp .bundle <| do
      let output ← raw.value? "--output"
      if inputs.isEmpty then none
      else some (.bundle inputs output (raw.value? "--name") (raw.value? "--description"))
  | ["help"] => some (.help .program)
  | ["help", name] => (Topic.ofName? name).map .help
  | argument :: _ => if asksHelp argument then some (.help .program) else none
  | [] => none

end SlashCommand.CommandLine
