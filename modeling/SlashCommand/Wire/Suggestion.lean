import SlashCommand.Session.Basic
import SlashCommand.Suggestion.Basic
import SlashCommand.Wire.Form

/-!
# Suggestions as documents

The written form of suggestions and of the wishes about them.
-/

namespace SlashCommand

namespace SuggestionSource

/-- The name of a kind of suggestion. -/
def kindName : SuggestionSource → String
  | command _ => "command"
  | flag _ => "flag"
  | user .. => "user"
  | channel .. => "channel"
  | staticOption _ => "static_option"
  | dynamicOption _ => "dynamic_option"
  | literal _ => "literal"
  | execute => "execute"
  | placeholder => "placeholder"
  | error _ => "error"

/-- Writes what a suggestion stands for: its kind, then what belongs to the kind. -/
def toDatum (s : SuggestionSource) : Datum :=
  .record (Datum.member "kind" (.text s.kindName) ++
    match s with
    | command label => Datum.member "label" (.text label)
    | flag field => Datum.member "field" (.text field)
    | user userId username =>
      Datum.member "user_id" (.text userId) ++ Datum.member "username" (.text username)
    | channel channelId name =>
      Datum.member "channel_id" (.text channelId) ++ Datum.member "name" (.text name)
    | staticOption option => Datum.member "option" option.toDatum
    | dynamicOption option => Datum.member "option" option.toDatum
    | literal value => Datum.member "value" (.text value)
    | execute => []
    | placeholder => []
    | error message => Datum.member "message" (.text message))

/-- A kind with nothing to it: any record will do, and no list but the empty one. -/
def bare? (source : SuggestionSource) : Datum → Option SuggestionSource
  | .record _ => some source
  | .mapping _ => some source
  | .list [] => some source
  | _ => none

/-- A kind with one text to it. -/
def ofText? (key : String) (source : String → SuggestionSource) (d : Datum) :
    Option SuggestionSource := do
  let ms ← d.members? [key]
  let s ← Datum.required ms key Datum.toText?
  some (source s)

/-- A kind with two texts to it. -/
def ofTexts? (key₁ key₂ : String) (source : String → String → SuggestionSource) (d : Datum) :
    Option SuggestionSource := do
  let ms ← d.members? [key₁, key₂]
  let s ← Datum.required ms key₁ Datum.toText?
  let t ← Datum.required ms key₂ Datum.toText?
  some (source s t)

/-- A kind with an option to it. -/
def ofOption? (source : SelectOption → SuggestionSource) (d : Datum) :
    Option SuggestionSource := do
  let ms ← d.members? ["option"]
  let o ← Datum.required ms "option" SelectOption.ofDatum?
  some (source o)

/-- Reads what a suggestion stands for. -/
def ofDatum? (d : Datum) : Option SuggestionSource := do
  let (kind, rest) ← d.tagged? "kind"
  match kind with
  | "command" => ofText? "label" command rest
  | "flag" => ofText? "field" flag rest
  | "user" => ofTexts? "user_id" "username" user rest
  | "channel" => ofTexts? "channel_id" "name" channel rest
  | "static_option" => ofOption? staticOption rest
  | "dynamic_option" => ofOption? dynamicOption rest
  | "literal" => ofText? "value" literal rest
  | "execute" => bare? execute rest
  | "placeholder" => bare? placeholder rest
  | "error" => ofText? "message" error rest
  | _ => none

end SuggestionSource

namespace Suggestion

/-- Writes a suggestion. -/
def toDatum (s : Suggestion) : Datum :=
  .record (Datum.member "complete" (.text s.complete) ++
    Datum.member "suggestion" (.text s.suggestion) ++ Datum.member "hint" (.text s.hint) ++
    Datum.member "description" (.text s.description) ++
    Datum.member "icon_data" (.text s.iconData) ++ Datum.member "source" s.source.toDatum)

/-- Reads a suggestion. -/
def ofDatum? (d : Datum) : Option Suggestion := do
  let ms ← d.members? ["complete", "suggestion", "hint", "description", "icon_data", "source"]
  let complete ← Datum.required ms "complete" Datum.toText?
  let suggestion ← Datum.required ms "suggestion" Datum.toText?
  let hint ← Datum.required ms "hint" Datum.toText?
  let description ← Datum.required ms "description" Datum.toText?
  let iconData ← Datum.required ms "icon_data" Datum.toText?
  let source ← Datum.required ms "source" SuggestionSource.ofDatum?
  some ⟨complete, suggestion, hint, description, iconData, source⟩

end Suggestion

namespace SuggestionConfig

/-- Writes the wishes about suggestions. -/
def toDatum (c : SuggestionConfig) : Datum :=
  .record (Datum.member "execute_suggestion" (.bool c.executeSuggestion) ++
    Datum.member "no_match_placeholder" (.bool c.noMatchPlaceholder) ++
    Datum.member? "max_suggestions" (c.maxSuggestions.map fun n => Datum.ofInt n))

/-- Reads the wishes about suggestions; what is not said is as usual. -/
def ofDatum? (d : Datum) : Option SuggestionConfig := do
  let usual : SuggestionConfig := {}
  let ms ← d.members? ["execute_suggestion", "no_match_placeholder", "max_suggestions"]
  let execute ← Datum.defaulted ms "execute_suggestion" Datum.toBool? usual.executeSuggestion
  let placeholder ← Datum.defaulted ms "no_match_placeholder" Datum.toBool? usual.noMatchPlaceholder
  let max ← Datum.optional ms "max_suggestions" (Datum.toInt? 0 (Int.pow 2 64 - 1))
  some ⟨execute, placeholder, max.map Int.toNat⟩

end SuggestionConfig

end SlashCommand
