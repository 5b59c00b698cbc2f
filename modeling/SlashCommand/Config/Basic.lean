import SlashCommand.Files.Path
import SlashCommand.Session.Basic

/-!
# Configuration

A configuration says where bindings come from, which fixtures answer calls, and where commands are
typed.  Relative paths in it are meant from the directory of the file that it was loaded from.
-/

namespace SlashCommand

/-- Where bindings are loaded from: a directory with a file for each command, or a bundle. -/
inductive BindingSource where
  | directory (path : String)
  | bundle (path : String)
deriving DecidableEq, Repr, Inhabited

/-- A configuration. -/
structure Config where
  version : String := "1.0"
  sources : List BindingSource := []
  fixtures : Option String := none
  context : CommandContext := {}
  suggestions : SuggestionConfig := {}
deriving DecidableEq, Repr, Inhabited

/-- The source with its path changed. -/
def BindingSource.mapPath (f : String → String) : BindingSource → BindingSource
  | directory path => directory (f path)
  | bundle path => bundle (f path)

/-- The configuration with relative paths meant from `base`. -/
def Config.resolvePaths (c : Config) (base : String) : Config :=
  { c with
    sources := c.sources.map (·.mapPath (Path.join base))
    fixtures := c.fixtures.map (Path.join base) }

end SlashCommand
