import SlashCommand.Form.Basic

/-!
# Calls and their answers

A complete command becomes a `CallRequest`: the call, the typed values of the form's fields, and the
context the command was typed in.  The same shape asks for the form of a command and for the options
of a field.  The app answers with a `CallResponse`.
-/

namespace SlashCommand

/-- Where a call comes from: the app, the path of the binding, and the identifiers of the
conversation. -/
structure CallContext where
  appId : String := ""
  location : String := ""
  channelId : Option String := none
  teamId : Option String := none
  postId : Option String := none
  rootId : Option String := none
deriving DecidableEq, Repr, Inhabited

/-- The value of a field in its type. -/
inductive TypedValue where
  | bool (value : Bool)
  | text (value : String)
  | option (value : SelectOption)
  | texts (values : List String)
  | options (values : List SelectOption)
deriving DecidableEq, Repr, Inhabited

/-- A call that is ready to be made.  `selectedField` and `query` are set when options are looked up:
the field and what was typed of its value. -/
structure CallRequest where
  call : Call
  context : CallContext
  values : NameMap TypedValue := ∅
  rawCommand : Option String := none
  selectedField : Option String := none
  query : Option String := none
deriving BEq

/-- What a call asks for. -/
inductive CallType where
  | submit
  | form
  | lookup
deriving DecidableEq, Repr, Inhabited

/-- The name of a kind of call. -/
def CallType.name : CallType → String
  | submit => "submit"
  | form => "form"
  | lookup => "lookup"

/-- The answer to a call. -/
inductive CallResponse where
  | ok (text : Option String) (data : Option Datum)
  | form (form : Form)
  | navigate (url : String)
  | error (text : Option String)
deriving BEq, Repr, Inhabited

/-- The name of a kind of answer. -/
def CallResponse.typeName : CallResponse → String
  | ok .. => "ok"
  | form _ => "form"
  | navigate _ => "navigate"
  | error _ => "error"

/-- The options that a lookup found. -/
structure LookupResponse where
  items : List SelectOption := []
deriving DecidableEq, Repr, Inhabited

/-- A user of the directory. -/
structure User where
  id : String
  username : String
deriving DecidableEq, Repr, Inhabited

/-- A channel of the directory; one without a team is seen from every team. -/
structure Channel where
  id : String
  name : String
  displayName : String := ""
  teamId : Option String := none
deriving DecidableEq, Repr, Inhabited

/-- Where a command is typed. -/
structure CommandContext where
  channelId : String := ""
  teamId : Option String := none
  rootId : Option String := none
  postId : Option String := none
deriving DecidableEq, Repr, Inhabited

/-- The context of a call for the binding at `location`; an empty channel is no channel. -/
def CommandContext.callContext (c : CommandContext) (appId location : String) : CallContext where
  appId := appId
  location := location
  channelId := if c.channelId == "" then none else some c.channelId
  teamId := c.teamId
  postId := c.postId
  rootId := c.rootId

end SlashCommand
