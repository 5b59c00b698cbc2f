import SlashCommand.Database.Basic
import SlashCommand.Json.Reader
import SlashCommand.Json.Writer
import SlashCommand.Wire.Binding
import SlashCommand.Wire.Config
import SlashCommand.Wire.Fixtures
import SlashCommand.Yaml.Reader
import SlashCommand.Yaml.Writer

/-!
# Loading

Databases, configurations and fixtures are loaded from files.  A directory holds one binding in each
file whose name ends in `.json`, and they are taken in the order of the names.  Of several sources
the first that can be loaded counts, and whatever is loaded is well formed.

A path that leads to a directory can be opened as a file, and only reading it fails.  The decoder
reads, so it is the decoder that finds this, or octets that are no text.
-/

namespace SlashCommand

variable {m : Type → Type} [Monad m]

namespace FileSystem

/-- Reads a file as a document of some kind. -/
def load (fs : FileSystem m) (path : String) (parse : String → Option α)
    (malformed : DecodeError → DatabaseError) : m (Except DatabaseError α) := do
  match ← fs.read path with
  | .error .isDirectory => return .error (malformed (.unreadable .isDirectory))
  | .error .notText => return .error (malformed (.unreadable .notText))
  | .error e => return .error (.io e)
  | .ok text =>
    match parse text with
    | some a => return .ok a
    | none => return .error (malformed .notOfKind)

/-- Reads a file in JSON. -/
def loadJson (fs : FileSystem m) (path : String) (read : Datum → Option α) :
    m (Except DatabaseError α) :=
  fs.load path (fun text => (Json.parse text).bind read) @DatabaseError.json

end FileSystem

namespace Database

/-- The names of binding files among the names in a directory, in order. -/
def bindingFiles (names : List String) : List String :=
  (names.filter fun name => Path.extension? name == some "json").mergeSort fun a b => a ≤ b

/-- Reads the bindings of several files, up to the first that has none. -/
def loadBindings (fs : FileSystem m) : List String → m (Except DatabaseError (List Binding))
  | [] => return .ok []
  | path :: paths => do
    match ← fs.loadJson path Binding.ofDatum? with
    | .error e => return .error e
    | .ok b => return (← loadBindings fs paths).map (b :: ·)

/-- Loads a directory with a file for each binding. -/
def loadDirectory (fs : FileSystem m) (path : String) : m (Except DatabaseError Database) := do
  match ← fs.list path with
  | .error e => return .error (.io e)
  | .ok names =>
    match ← loadBindings fs ((bindingFiles names).map (Path.join path)) with
    | .error e => return .error e
    | .ok bindings => return ofBindings bindings (.source (.directory path))

/-- Loads a bundle. -/
def loadBundle (fs : FileSystem m) (path : String) : m (Except DatabaseError Database) := do
  match ← fs.loadJson path BindingPackage.ofDatum? with
  | .error e => return .error e
  | .ok package => return ofPackage package (.source (.bundle path))

/-- Loads a source. -/
def load (fs : FileSystem m) : BindingSource → m (Except DatabaseError Database)
  | .directory path => loadDirectory fs path
  | .bundle path => loadBundle fs path

/-- Loads the first of several sources that can be loaded. -/
def loadFirst (fs : FileSystem m) : List BindingSource → m (Except DatabaseError Database)
  | [] => return .error .noSources
  | source :: sources => do
    match ← load fs source with
    | .ok db => return .ok db
    | .error _ => loadFirst fs sources

/-- Loads the first of several sources that can be loaded, and records all of them. -/
def build (fs : FileSystem m) (sources : List BindingSource) :
    m (Except DatabaseError Database) := do
  return (← loadFirst fs sources).map fun db => { db with origin := .anyOf sources }

end Database

namespace Config

/-- Loads a configuration, and resolves its paths from the directory that it lies in. -/
def load (fs : FileSystem m) (path : String) : m (Except DatabaseError Config) := do
  let loaded ← fs.load path (fun text => (Yaml.parse text).bind ofDatum?) @DatabaseError.yaml
  return loaded.map fun c =>
    match Path.parent? path with
    | some base => c.resolvePaths base
    | none => c

/-- Writes a configuration to a file. -/
def save (fs : FileSystem m) (path : String) (c : Config) : m (Except FileError Unit) :=
  fs.write path (Yaml.write c.toDatum)

end Config

/-- Loads fixtures. -/
def Fixtures.load (fs : FileSystem m) (path : String) : m (Except DatabaseError Fixtures) :=
  fs.loadJson path Fixtures.ofDatum?

/-- The text of a bundle file. -/
def BindingPackage.fileText (p : BindingPackage) : String := Json.pretty p.toDatum

end SlashCommand
