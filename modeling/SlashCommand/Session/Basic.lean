import SlashCommand.Expansion.Basic
import SlashCommand.Form.Completion
import SlashCommand.Scan.Descent
import SlashCommand.Scan.Parameters
import SlashCommand.Session.Error

/-!
# Sessions

A session is what a command is typed in: the command tree, the place of the conversation, and the
wishes about suggestions.  `parse` scans a command, fetching the form of the matched binding where it
is not inline, and `compose` turns a complete command into the request that carries it out.

Composing is a scan followed by `finish`, which fills in defaults, expands all values and only then
looks for required fields that are missing.  A command with both faults reports the expansion.
-/

namespace SlashCommand

/-- What suggestions are offered: whether the command may be executed as it is, whether an empty
list is replaced by a note, and how many suggestions there may be. -/
structure SuggestionConfig where
  executeSuggestion : Bool := true
  noMatchPlaceholder : Bool := true
  maxSuggestions : Option Nat := none
deriving DecidableEq, Repr, Inhabited

/-- A command tree and the place where commands are typed. -/
structure Session where
  bindings : List Binding
  context : CommandContext := {}
  config : SuggestionConfig := {}

/-- Where the form of a matched binding comes from. -/
inductive FormSource where
  | none
  | inline (form : Form)
  | remote (binding : Binding) (key : FormKey) (context : CallContext)

variable {m : Type → Type} [Monad m]

namespace Session

/-- Moves the session to another channel or thread. -/
def setChannel (s : Session) (channelId : String) (rootId : Option String) : Session :=
  { s with context := { s.context with channelId, rootId } }

/-- The text starts with a slash, the label of a top-level binding and a blank. -/
def isAppCommand (s : Session) (text : String) : Bool :=
  match Text.dropPrefix? "/" (Text.lowercase text) with
  | none => false
  | some rest => s.bindings.any fun b =>
    match Text.dropPrefix? (Text.lowercase b.label) rest with
    | some after => after.toList.head?.any Text.isBlank
    | none => false

/-- The scan of a command up to its binding.  A command that is executed must not stop at a binding
with subcommands. -/
def matchCommand (s : Session) (command : String) (mode : ScanMode) : Scan :=
  let scan := (Scan.ofText command).matchBinding s.bindings mode
  match mode with
  | .execute => scan.requireLeaf
  | .autocomplete => scan

/-- Where the form for the rest of a scan comes from: from the matched binding itself, from the app
if the binding is a leaf with a call, or from nowhere. -/
def formSource (s : Session) (scan : Scan) : FormSource :=
  match scan.isFailed, scan.binding with
  | false, some b =>
    match b.form with
    | some form => .inline form
    | none =>
      if b.isLeaf && b.call.isSome then
        .remote b (s.context.formKey scan.location) (s.context.callContext scan.appId scan.location)
      else .none
  | _, _ => .none

/-- Scans a command.  Grammar errors are found in the scan; it is an error of its own when the form
cannot be fetched. -/
def parse (s : Session) (backend : Backend m) (command : String) (mode : ScanMode) :
    StateT FormCache m (Except FormError Scan) := do
  let scan := s.matchCommand command mode
  match s.formSource scan with
  | .none => return .ok (scan.parseForm mode)
  | .inline form => return .ok ((scan.withForm form).parseForm mode)
  | .remote binding key context =>
    return (← FormCache.fetch backend key binding context).map fun form =>
      (scan.withForm form).parseForm mode

/-- The request for the scanned command before its values are known. -/
def requestFor (s : Session) (scan : Scan) (call : Call) : CallRequest :=
  { call, context := s.context.callContext scan.appId scan.location
    rawCommand := some scan.command }

/-- Turns a scanned command into a request. -/
def finish (s : Session) (backend : Backend m) (scan : Scan) :
    m (Except CommandError CallRequest) :=
  match scan.result with
  | .error e => return .error (.parse e)
  | .ok scan =>
    match scan.binding.bind (·.submitCall? scan.form) with
    | none => return .error (.missingCall scan.location)
    | some call =>
      let request := s.requestFor scan call
      match scan.form with
      | none => return .ok request
      | some form => do
        let values := form.fillDefaults scan.values
        match ← Expansion.expandValues backend s.context.teamId form values with
        | .error errors => return .error (.expansion errors)
        | .ok typed =>
          match form.missingFields values with
          | [] => return .ok { request with values := typed }
          | missing => return .error (.requiredFieldsMissing (missing.map Field.flagName))

/-- Turns a complete command into a request. -/
def compose (s : Session) (backend : Backend m) (command : String) :
    StateT FormCache m (Except CommandError CallRequest) := do
  match ← s.parse backend command .execute with
  | .error e => return .error (.form e)
  | .ok scan => StateT.lift (s.finish backend scan)

end Session

end SlashCommand
