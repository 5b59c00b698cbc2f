import SlashCommand.Session.Basic
import SlashCommand.Suggestion.Offer
import SlashCommand.Wire.Call

/-!
# Suggestions of a session

`Session.suggest` scans what is typed and offers what can stand where the scan stopped: subcommands,
flags, or values of the field that is being typed.  Options of dynamic fields are looked up by a call
that carries the values typed so far, and users and channels in the directory.

A lookup that fails is reported as a suggestion of its own, and a directory that fails offers
nothing.
-/

namespace SlashCommand

variable {m : Type → Type} [Monad m]

/-- The options in the answer to a lookup, or why there are none. -/
def CallResponse.toOptions : CallResponse → Except String (List SelectOption)
  | ok _ none => .ok []
  | ok _ (some data) =>
    match LookupResponse.ofDatum? data with
    | some response => .ok response.items
    | none => .error "invalid lookup response: not a list of options"
  | error text => .error (text.getD "Unknown error.")
  | other =>
    .error ("App response type was not expected. Response type: " ++ other.typeName)

namespace Session

/-- The options of a dynamic field, or why there are none. -/
def lookUp (s : Session) (backend : Backend m) (scan : Scan) (form : Form) (field : Field)
    (binding : Binding) : m (Except String (List SelectOption)) := do
  match binding.submitCall? (some form) with
  | none => return .error "Error preparing lookup request."
  | some call =>
    let values := form.fillDefaults scan.values
    match ← Expansion.expandValues backend s.context.teamId form values with
    | .error errors => return .error (CommandError.expansion errors).message
    | .ok typed =>
      let request := { s.requestFor scan call with
        values := typed
        selectedField := some field.name
        query := some scan.token }
      match ← backend.performCall request .lookup with
      | .ok response => return response.toOptions
      | .error e => return .error e.message

/-- The suggestions for the value of a dynamic field. -/
def offerDynamic (s : Session) (backend : Backend m) (scan : Scan) (form : Form) (field : Field)
    (quote : Option Quote) : m (List Suggestion) := do
  match scan.binding with
  | none => return []
  | some binding =>
    match ← s.lookUp backend scan form field binding with
    | .error message => return [.ofError scan.command message]
    | .ok [] => return [.note "Received no data for dynamic suggestions." ""]
    | .ok options => return options.map fun o =>
      { complete := Scan.enclose quote o.value
        suggestion := o.value
        description := o.label
        iconData := o.iconData.getD scan.icon
        source := .dynamicOption o }

/-- The users whose name starts with what is typed. -/
def offerUsers (backend : Backend m) (scan : Scan) (field : Field) : m (List Suggestion) := do
  let typed := Text.trim scan.token
  if typed == "" then return [scan.mentionNote field "@username"]
  match ← backend.usersByPrefix (Text.dropLeading '@' typed) with
  | .error _ => return []
  | .ok users => return users.map fun u =>
    { complete := "@" ++ u.username
      suggestion := "@" ++ u.username
      description := field.description.getD ""
      iconData := scan.icon
      source := .user u.id u.username }

/-- The channels whose name starts with what is typed. -/
def offerChannels (s : Session) (backend : Backend m) (scan : Scan) (field : Field) :
    m (List Suggestion) := do
  let typed := Text.trim scan.token
  if typed == "" then return [scan.mentionNote field "~channelname"]
  match ← backend.channelsByPrefix s.context.teamId (Text.dropLeading '~' typed) with
  | .error _ => return []
  | .ok channels => return channels.map fun c =>
    { complete := "~" ++ c.name
      suggestion := "~" ++ c.name
      description := c.displayName
      iconData := scan.icon
      source := .channel c.id c.name }

/-- The suggestions for a value of a field.  Inside a list, values that the list has already are left
out. -/
def offerValues (s : Session) (backend : Backend m) (scan : Scan) (form : Form) (field : Field)
    (quote : Option Quote) : m (List Suggestion) := do
  let unlisted (offers : List Suggestion) : List Suggestion :=
    let listed := scan.listedTokens field
    offers.filter fun o => !listed.contains o.source.listKey
  match field.type with
  | .text => return [scan.echo quote]
  | .bool => return unlisted (scan.offerBools field)
  | .staticSelect => return unlisted (scan.offerOptions field quote)
  | .dynamicSelect => return unlisted (← s.offerDynamic backend scan form field quote)
  | .user => return unlisted (← offerUsers backend scan field)
  | .channel => return unlisted (← s.offerChannels backend scan field)

/-- The suggestions for the parameter under the cursor. -/
def offerParameters (s : Session) (backend : Backend m) (scan : Scan) (form : Form) :
    m (List Suggestion) :=
  match scan.state with
  | .startParameter =>
    match scan.nextPositional? form with
    | some field => s.offerValues backend scan form field none
    | none => return scan.offerFlags form
  | .flagName => return scan.offerFlags form
  | .rest _ => return [scan.echo none]
  | .value .. | .list .. =>
    match scan.currentField? with
    | some field => s.offerValues backend scan form field scan.state.quote?
    | none => return []
  | _ => return []

/-- The suggestions for a scan that has not failed. -/
def offers (s : Session) (backend : Backend m) (scan : Scan) : m (List Suggestion) := do
  let commands := if scan.state = .command then scan.offerCommands else []
  let parameters ← match scan.form with
    | some form => s.offerParameters backend scan form
    | none => pure []
  let execution := if s.config.executeSuggestion then scan.offerExecution? else none
  let found := commands ++ parameters
  let found :=
    if found.isEmpty && execution.isNone && s.config.noMatchPlaceholder && !scan.isTypingMention
    then [.note "No matching suggestions." ""] else found
  let all := execution.toList ++ found.map scan.splice
  return match s.config.maxSuggestions with
    | some n => all.take n
    | none => all

/-- The suggestions for what is typed. -/
def suggest (s : Session) (backend : Backend m) (text : String) :
    StateT FormCache m (List Suggestion) := do
  match ← s.parse backend text .autocomplete with
  | .error e => return [.ofError text e.message]
  | .ok scan =>
    match scan.error? with
    | some e => return [.ofError text e.error.message]
    | none => StateT.lift (s.offers backend scan)

end Session

end SlashCommand
