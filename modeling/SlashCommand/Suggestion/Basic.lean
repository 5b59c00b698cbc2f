import SlashCommand.Form.Basic
import SlashCommand.Text.Affix

/-!
# Suggestions

What is offered while a command is being typed.  `complete` is the text that replaces the whole
input, without its leading slash; `suggestion`, `hint` and `description` are shown.
-/

namespace SlashCommand

/-- What a suggestion stands for. -/
inductive SuggestionSource where
  | command (label : String)
  | flag (field : String)
  | user (userId username : String)
  | channel (channelId name : String)
  | staticOption (option : SelectOption)
  | dynamicOption (option : SelectOption)
  | literal (value : String)
  | execute
  | placeholder
  | error (message : String)
deriving DecidableEq, Repr, Inhabited

/-- One suggestion. -/
structure Suggestion where
  complete : String := ""
  suggestion : String := ""
  hint : String := ""
  description : String := ""
  iconData : String := ""
  source : SuggestionSource := .placeholder
deriving DecidableEq, Repr, Inhabited

/-- The token that a suggested value is known by in a list of values. -/
def SuggestionSource.listKey : SuggestionSource → String
  | user _ username => username
  | channel _ name => name
  | staticOption option => option.value
  | dynamicOption option => option.value
  | literal value => value
  | _ => ""

namespace Suggestion

/-- A note with nothing to complete. -/
def note (description : String) (hint : String) : Suggestion := { description, hint }

/-- A failure in place of suggestions; it leaves the command as it is. -/
def ofError (command message : String) : Suggestion where
  complete := Text.dropLeading '/' command
  description := "Error: " ++ message
  source := .error message

/-- The source is an error. -/
def isError (s : Suggestion) : Bool := s.source matches .error _

end Suggestion

end SlashCommand
