import SlashCommand.Call.Request
import SlashCommand.Wire.Form

/-!
# Calls as documents

The written form of requests, answers and the directory's entries.  A typed value is written without
its type; it is read as the first of the kinds truth value, text, option, list of texts and list of
options that fits, and a list of two or three texts is an option.
-/

namespace SlashCommand

namespace CallContext

/-- Writes a context. -/
def toDatum (c : CallContext) : Datum :=
  .record (Datum.member "app_id" (.text c.appId) ++ Datum.member "location" (.text c.location) ++
    Datum.member? "channel_id" (c.channelId.map .text) ++
    Datum.member? "team_id" (c.teamId.map .text) ++ Datum.member? "post_id" (c.postId.map .text) ++
    Datum.member? "root_id" (c.rootId.map .text))

/-- Reads a context. -/
def ofDatum? (d : Datum) : Option CallContext := do
  let ms ← d.members? ["app_id", "location", "channel_id", "team_id", "post_id", "root_id"]
  let appId ← Datum.required ms "app_id" Datum.toText?
  let location ← Datum.required ms "location" Datum.toText?
  let channelId ← Datum.optional ms "channel_id" Datum.toText?
  let teamId ← Datum.optional ms "team_id" Datum.toText?
  let postId ← Datum.optional ms "post_id" Datum.toText?
  let rootId ← Datum.optional ms "root_id" Datum.toText?
  some ⟨appId, location, channelId, teamId, postId, rootId⟩

end CallContext

namespace TypedValue

/-- Writes a typed value. -/
def toDatum : TypedValue → Datum
  | bool b => .bool b
  | text s => .text s
  | option o => o.toDatum
  | texts ts => Datum.ofTexts ts
  | options os => .list (os.map SelectOption.toDatum)

/-- Reads a typed value as the first kind that fits. -/
def ofDatum? (d : Datum) : Option TypedValue := do
  let d ← d.settled?
  match d with
  | .bool b => some (.bool b)
  | .text s => some (.text s)
  | d =>
    ((SelectOption.ofDatum? d).map .option).or <| (d.toTexts?.map .texts).or <|
      (d.toList? SelectOption.ofDatum?).map .options

end TypedValue

namespace CallRequest

/-- Writes a request. -/
def toDatum (r : CallRequest) : Datum :=
  .record (Datum.member "call" r.call.toDatum ++ Datum.member "context" r.context.toDatum ++
    Datum.member "values" (Datum.ofMap TypedValue.toDatum r.values) ++
    Datum.member? "raw_command" (r.rawCommand.map .text) ++
    Datum.member? "selected_field" (r.selectedField.map .text) ++
    Datum.member? "query" (r.query.map .text))

/-- Reads a request. -/
def ofDatum? (d : Datum) : Option CallRequest := do
  let ms ← d.members? ["call", "context", "values", "raw_command", "selected_field", "query"]
  let call ← Datum.required ms "call" Call.ofDatum?
  let context ← Datum.required ms "context" CallContext.ofDatum?
  let values ← Datum.defaulted ms "values" (Datum.toMap? TypedValue.ofDatum?) ∅
  let rawCommand ← Datum.optional ms "raw_command" Datum.toText?
  let selectedField ← Datum.optional ms "selected_field" Datum.toText?
  let query ← Datum.optional ms "query" Datum.toText?
  some ⟨call, context, values, rawCommand, selectedField, query⟩

end CallRequest

/-- Writes a kind of call. -/
def CallType.toDatum (t : CallType) : Datum := .text t.name

/-- Reads a kind of call. -/
def CallType.ofDatum? : Datum → Option CallType :=
  Datum.toName? false [("submit", .submit), ("form", .form), ("lookup", .lookup)]

namespace CallResponse

/-- Writes an answer: its kind, then what belongs to the kind. -/
def toDatum (r : CallResponse) : Datum :=
  .record (Datum.member "type" (.text r.typeName) ++
    match r with
    | ok text data => Datum.member? "text" (text.map .text) ++ Datum.member? "data" data
    | form f => Datum.member "form" f.toDatum
    | navigate url => Datum.member "navigate_to_url" (.text url)
    | error text => Datum.member? "text" (text.map .text))

/-- Reads an answer, of which all but the kind is buffered. -/
def ofDatum? (d : Datum) : Option CallResponse := do
  let (kind, rest) ← d.tagged? "type"
  match kind with
  | "ok" => do
    let ms ← rest.members? ["text", "data"]
    let text ← Datum.optional ms "text" Datum.toText?
    let data ← Datum.optional ms "data" Datum.verbatim?
    some (.ok text data)
  | "form" => do
    let ms ← rest.members? ["form"]
    let f ← Datum.required ms "form" Form.ofBuffered?
    some (.form f)
  | "navigate" => do
    let ms ← rest.members? ["navigate_to_url"]
    let url ← Datum.required ms "navigate_to_url" Datum.toText?
    some (.navigate url)
  | "error" => do
    let ms ← rest.members? ["text"]
    let text ← Datum.optional ms "text" Datum.toText?
    some (.error text)
  | _ => none

/-- Inside an answer a field type may be the only key of a record with an empty record as its value. -/
example :
    ofDatum? (.record [("type", .text "form"), ("form", .record [("fields",
      .list [.record [("name", .text "x"), ("type", .record [("bool", .record [])])]])])]) =
      some (.form { fields := [{ name := "x", type := .bool }] }) := rfl

end CallResponse

namespace LookupResponse

/-- Writes the options that a lookup found. -/
def toDatum (r : LookupResponse) : Datum :=
  .record (Datum.member "items" (.list (r.items.map SelectOption.toDatum)))

/-- Reads the options that a lookup found. -/
def ofDatum? (d : Datum) : Option LookupResponse := do
  let ms ← d.members? ["items"]
  let items ← Datum.defaulted ms "items" (Datum.toList? SelectOption.ofDatum?) []
  some ⟨items⟩

end LookupResponse

namespace User

/-- Writes a user. -/
def toDatum (u : User) : Datum :=
  .record (Datum.member "id" (.text u.id) ++ Datum.member "username" (.text u.username))

/-- Reads a user. -/
def ofDatum? (d : Datum) : Option User := do
  let ms ← d.members? ["id", "username"]
  let id ← Datum.required ms "id" Datum.toText?
  let username ← Datum.required ms "username" Datum.toText?
  some ⟨id, username⟩

end User

namespace Channel

/-- Writes a channel. -/
def toDatum (c : Channel) : Datum :=
  .record (Datum.member "id" (.text c.id) ++ Datum.member "name" (.text c.name) ++
    Datum.member "display_name" (.text c.displayName) ++
    Datum.member? "team_id" (c.teamId.map .text))

/-- Reads a channel. -/
def ofDatum? (d : Datum) : Option Channel := do
  let ms ← d.members? ["id", "name", "display_name", "team_id"]
  let id ← Datum.required ms "id" Datum.toText?
  let name ← Datum.required ms "name" Datum.toText?
  let displayName ← Datum.defaulted ms "display_name" Datum.toText? ""
  let teamId ← Datum.optional ms "team_id" Datum.toText?
  some ⟨id, name, displayName, teamId⟩

end Channel

namespace CommandContext

/-- Writes the place a command is typed in. -/
def toDatum (c : CommandContext) : Datum :=
  .record (Datum.member "channel_id" (.text c.channelId) ++
    Datum.member? "team_id" (c.teamId.map .text) ++ Datum.member? "root_id" (c.rootId.map .text) ++
    Datum.member? "post_id" (c.postId.map .text))

/-- Reads the place a command is typed in. -/
def ofDatum? (d : Datum) : Option CommandContext := do
  let ms ← d.members? ["channel_id", "team_id", "root_id", "post_id"]
  let channelId ← Datum.required ms "channel_id" Datum.toText?
  let teamId ← Datum.optional ms "team_id" Datum.toText?
  let rootId ← Datum.optional ms "root_id" Datum.toText?
  let postId ← Datum.optional ms "post_id" Datum.toText?
  some ⟨channelId, teamId, rootId, postId⟩

end CommandContext

end SlashCommand
