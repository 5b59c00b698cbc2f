import SlashCommand.CommandLine.Help
import SlashCommand.Database.Loader
import SlashCommand.Session.Suggest

/-!
# Running the command line

`run` carries out an invocation over a file system.  It answers with what is printed and with the
exit code: `0` for success, `1` for a failure, which is named on the error output, and `2` for
arguments that make no sense.
-/

namespace SlashCommand.CommandLine

variable {m : Type → Type} [Monad m]

/-- What comes of a run. -/
structure Outcome where
  code : Nat
  output : String := ""
  error : String := ""
deriving DecidableEq, Repr

/-- The version that bundles are given. -/
def packageVersion : String := "0.1.0"

/-- The text of a result in a format. -/
def render (format : OutputFormat) (d : Datum) : String :=
  let text := match format with
    | .json => Json.pretty d
    | .yaml => Yaml.write d
  Text.trimEnd text ++ "\n"

/-- A directory is a directory of bindings, and anything else a bundle. -/
def sourceFor (fs : FileSystem m) (path : String) : m BindingSource := do
  return if ← fs.isDirectory path then .directory path else .bundle path

/-- Loads several inputs into one database; later bindings take the place of earlier ones with the
same label. -/
def loadInputs (fs : FileSystem m) (loaded : Option Database) :
    List String → m (Except String (Option Database))
  | [] => return .ok loaded
  | input :: inputs => do
    match ← Database.load fs (← sourceFor fs input) with
    | .error e => return .error (input ++ ": " ++ e.message)
    | .ok db =>
      let all := match loaded with
        | some all => db.bindings.foldl Database.insert all
        | none => db
      loadInputs fs (some all) inputs

/-- The database of all inputs. -/
def loadAll (fs : FileSystem m) (inputs : List String) : ExceptT String m Database := do
  match ← ExceptT.mk (loadInputs fs none inputs) with
  | some db => return db
  | none => throw "No inputs given."

/-- A result whose failure is worded with what was being done. -/
def explain (doing : String) (result : m (Except DatabaseError α)) : ExceptT String m α :=
  ExceptT.mk do return (← result).mapError fun e => doing ++ ": " ++ e.message

/-- The session and the fixtures that options ask for.  Bindings from the options are tried before
those of the configuration. -/
def loadSession (fs : FileSystem m) (o : SessionOptions) : ExceptT String m (Session × Fixtures) := do
  let config ← match o.config with
    | some path => explain ("Failed to load config '" ++ path ++ "'") (Config.load fs path)
    | none => pure {}
  let given ← ExceptT.lift (o.bindings.mapM (sourceFor fs))
  let sources := given ++ config.sources
  if sources.isEmpty then throw "No binding sources given; pass --bindings or --config."
  let db ← explain "Failed to load bindings" (Database.build fs sources)
  let fixtures ← match o.fixtures.or config.fixtures with
    | some path => explain ("Failed to load fixtures '" ++ path ++ "'") (Fixtures.load fs path)
    | none => pure {}
  let context := { config.context with
    channelId := o.channel.getD config.context.channelId
    teamId := o.team.or config.context.teamId }
  return ({ bindings := db.bindings, context, config := config.suggestions }, fixtures)

/-- The wording of a command error on the error output; a grammar error shows the command with a
caret below the place. -/
def describe (command : String) : CommandError → String
  | .parse e => (CommandError.parse e).message ++ "\n" ++ e.caret command
  | e => e.message

/-- Composes a command, and submits it if asked to. -/
def execute (fs : FileSystem m) (command : String) (submit : Bool) (o : SessionOptions) :
    ExceptT String m String := do
  let (session, fixtures) ← loadSession fs o
  let (result, _) ← ExceptT.lift (session.compose (fixtures.backend : Backend m) command {})
  match result with
  | .error e => throw (describe command e)
  | .ok request =>
    if submit then
      match ← ExceptT.lift ((fixtures.backend : Backend m).performCall request .submit) with
      | .ok response => return render o.format response.toDatum
      | .error e => throw ("Call to '" ++ request.call.path ++ "' failed: " ++ e.message)
    else return render o.format request.toDatum

/-- Lists the suggestions for what is typed. -/
def suggest (fs : FileSystem m) (text : String) (o : SessionOptions) : ExceptT String m String := do
  let (session, fixtures) ← loadSession fs o
  let (suggestions, _) ← ExceptT.lift (session.suggest (fixtures.backend : Backend m) text {})
  return render o.format (.list (suggestions.map Suggestion.toDatum))

/-- Checks inputs. -/
def validate (fs : FileSystem m) (inputs : List String) : ExceptT String m String := do
  let db ← loadAll fs inputs
  return "Validated " ++ toString inputs.length ++ " binding source(s) with " ++
    toString db.bindings.length ++ " command(s).\n"

/-- Writes all inputs into one bundle. -/
def bundle (fs : FileSystem m) (now : String) (inputs : List String) (output : String)
    (name description : Option String) : ExceptT String m String := do
  let db ← loadAll fs inputs
  let package := { db.toPackage packageVersion now with name, description }
  match Path.parent? output with
  | some directory =>
    if directory != "" then
      match ← ExceptT.lift (fs.makeDirectories directory) with
      | .ok () => pure ()
      | .error e =>
        throw ("Failed to create output directory '" ++ directory ++ "': " ++ e.message)
  | none => pure ()
  match ← ExceptT.lift (fs.write output package.fileText) with
  | .ok () =>
    return "Bundled " ++ toString package.bindings.length ++ " binding(s) into '" ++ output ++ "'.\n"
  | .error e => throw ("Failed to write '" ++ output ++ "': " ++ e.message)

/-- Carries out an invocation; the result is what it prints, or why it fails. -/
def perform (fs : FileSystem m) (now : String) : Invocation → ExceptT String m String
  | .help topic => pure topic.text
  | .execute command submit options => execute fs command submit options
  | .suggest text options => suggest fs text options
  | .validate inputs => validate fs inputs
  | .bundle inputs output name description => bundle fs now inputs output name description

/-- Runs the command line on arguments; `now` is the time that bundles are given. -/
def run (fs : FileSystem m) (now : String) (arguments : List String) : m Outcome := do
  match Invocation.parse? arguments with
  | none => return { code := 2, error := "Usage: " ++ Topic.program.call ++ "\n" }
  | some invocation =>
    match ← (perform fs now invocation).run with
    | .ok output => return { code := 0, output }
    | .error reason => return { code := 1, error := "error: " ++ reason ++ "\n" }

end SlashCommand.CommandLine
