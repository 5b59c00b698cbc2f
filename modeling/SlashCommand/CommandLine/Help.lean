import SlashCommand.CommandLine.Arguments

/-!
# Help

The help on a topic says what it is for, how it is called, and what may follow it: commands, arguments
and options, each with an explanation in a second column.
-/

namespace SlashCommand.CommandLine

/-- A row of a help text: how something is written, and what it is for. -/
structure HelpRow where
  written : String
  meaning : String

/-- A title, and below it rows in two columns, the first as wide as its longest entry.  There is
nothing to show without rows. -/
def helpTable (title : String) : List HelpRow → String
  | [] => ""
  | rows =>
    let width := rows.foldl (fun w r => max w r.written.length) 0
    let line (r : HelpRow) : String :=
      "  " ++ r.written ++ String.ofList (List.replicate (width - r.written.length + 2) ' ') ++
        r.meaning ++ "\n"
    "\n" ++ title ++ ":\n" ++ String.join (rows.map line)

namespace Topic

/-- What a topic is for. -/
def summary : Topic → String
  | program => "Parse, complete and bundle app slash commands"
  | execute => "Compose the call request for a complete command"
  | suggest => "List autocomplete suggestions for partially typed text"
  | validate => "Validate binding files, directories or bundles"
  | bundle => "Bundle binding files into a BindingPackage file"
  | help => "Print this message or the help of the given subcommand(s)"

/-- How a topic is called. -/
def call : Topic → String
  | program => "app-command <COMMAND>"
  | execute => "app-command execute [OPTIONS] <COMMAND>"
  | suggest => "app-command suggest [OPTIONS] <PRETEXT>"
  | validate => "app-command validate <INPUTS>..."
  | bundle => "app-command bundle [OPTIONS] --output <OUTPUT> <INPUTS>..."
  | help => "app-command help [COMMAND]..."

/-- The commands that may follow. -/
def commands : Topic → List HelpRow
  | program =>
    [⟨"execute", execute.summary⟩, ⟨"suggest", suggest.summary⟩, ⟨"validate", validate.summary⟩,
      ⟨"bundle", bundle.summary⟩, ⟨"help", help.summary⟩]
  | _ => []

/-- The arguments that are no options. -/
def inputs : Topic → List HelpRow
  | program => []
  | execute =>
    [⟨"<COMMAND>", "Full command text, e.g. \"/jira issue create --project KEY\""⟩]
  | suggest => [⟨"<PRETEXT>", "Text typed so far"⟩]
  | validate => [⟨"<INPUTS>...", "Binding directories and/or bundle files"⟩]
  | bundle => [⟨"<INPUTS>...", "Binding directories and/or bundle files"⟩]
  | help => [⟨"[COMMAND]...", "Print help for the subcommand(s)"⟩]

/-- The options that say where bindings, fixtures and context come from. -/
def sessionOptions : List HelpRow :=
  [⟨"    --config <CONFIG>", "Path to an app-command.yml configuration file"⟩,
    ⟨"    --bindings <BINDINGS>",
      "Binding directories or bundle files, tried before configured sources"⟩,
    ⟨"    --fixtures <FIXTURES>", "Fixture JSON backing form, lookup and submit calls"⟩,
    ⟨"    --channel <CHANNEL>", "Channel the command is typed in"⟩,
    ⟨"    --team <TEAM>", "Team the channel belongs to"⟩,
    ⟨"    --format <FORMAT>", "Output format [default: json] [possible values: json, yaml]"⟩]

/-- The option that asks for help. -/
def helpOption : HelpRow := ⟨"-h, --help", "Print help"⟩

/-- The options. -/
def options : Topic → List HelpRow
  | program => [helpOption]
  | execute =>
    ⟨"    --submit", "Also submit the composed request and print the response"⟩ ::
      (sessionOptions ++ [helpOption])
  | suggest => sessionOptions ++ [helpOption]
  | validate => [helpOption]
  | bundle =>
    [⟨"    --output <OUTPUT>", "Output JSON bundle path"⟩,
      ⟨"    --name <NAME>", "Optional bundle name metadata"⟩,
      ⟨"    --description <DESCRIPTION>", "Optional bundle description metadata"⟩, helpOption]
  | help => []

/-- The help on a topic. -/
def text (t : Topic) : String :=
  t.summary ++ "\n\nUsage: " ++ t.call ++ "\n" ++ helpTable "Commands" t.commands ++
    helpTable "Arguments" t.inputs ++ helpTable "Options" t.options

end Topic

end SlashCommand.CommandLine
