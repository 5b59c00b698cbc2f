import SlashCommand.Config.Basic
import SlashCommand.Wire.Call
import SlashCommand.Wire.Suggestion

/-!
# Configurations as documents

The written form of configurations.  Only the version has to be there.
-/

namespace SlashCommand

namespace BindingSource

/-- Writes a source as a record with one member, its kind. -/
def toDatum : BindingSource → Datum
  | directory path => .record (Datum.member "dir" (.text path))
  | bundle path => .record (Datum.member "bundle" (.text path))

/-- The kinds of sources. -/
def kinds : List (String × (String → BindingSource)) := [("dir", directory), ("bundle", bundle)]

/-- Reads a source; instead of a record it may be a path that is tagged with its kind. -/
def ofDatum? : Datum → Option BindingSource
  | .record [(k, d)] => ofKind? k d
  | .mapping [(k, d)] => do ofKind? (← k.toText?) d
  | .tagged (.own k) _ s => (kinds.lookup k).map (· s)
  | _ => none
where
  /-- Reads a source of a given kind. -/
  ofKind? (kind : String) (d : Datum) : Option BindingSource := do
    let source ← kinds.lookup kind
    let path ← d.toText?
    some (source path)

end BindingSource

/-- Reads the place a command is typed in from a configuration, where it may name no channel. -/
def CommandContext.ofConfigDatum? (d : Datum) : Option CommandContext := do
  let ms ← d.members? ["channel_id", "team_id", "root_id", "post_id"]
  let channelId ← Datum.defaulted ms "channel_id" Datum.toText? ""
  let teamId ← Datum.optional ms "team_id" Datum.toText?
  let rootId ← Datum.optional ms "root_id" Datum.toText?
  let postId ← Datum.optional ms "post_id" Datum.toText?
  some ⟨channelId, teamId, rootId, postId⟩

namespace Config

/-- Writes a configuration. -/
def toDatum (c : Config) : Datum :=
  .record (Datum.member "version" (.text c.version) ++
    Datum.member "sources" (.list (c.sources.map BindingSource.toDatum)) ++
    Datum.member? "fixtures" (c.fixtures.map .text) ++
    Datum.member "context" c.context.toDatum ++
    Datum.member "parser" c.suggestions.toDatum)

/-- Reads a configuration. -/
def ofDatum? (d : Datum) : Option Config := do
  let ms ← d.members? ["version", "sources", "fixtures", "context", "parser"]
  let version ← Datum.required ms "version" Datum.toText?
  let sources ← Datum.defaulted ms "sources" (Datum.toList? BindingSource.ofDatum?) []
  let fixtures ← Datum.optional ms "fixtures" Datum.toText?
  let context ← Datum.defaulted ms "context" CommandContext.ofConfigDatum? {}
  let suggestions ← Datum.defaulted ms "parser" SuggestionConfig.ofDatum? {}
  some ⟨version, sources, fixtures, context, suggestions⟩

end Config

end SlashCommand
