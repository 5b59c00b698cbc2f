import SlashCommand.Call.Backend
import SlashCommand.Text.Affix
import SlashCommand.Text.Lowercase
import SlashCommand.Wire.Call

/-!
# Fixtures

Canned answers, with which commands can be tried without any app: forms and responses by the path of
the call, lookups by the name of the field, and a small directory.

Names are found up to ASCII case and completed up to any case.  A form or a response that is not
canned is answered by an error response, and a lookup of a field without options by an empty list.
-/

namespace SlashCommand

/-- Canned answers to calls and a directory. -/
structure Fixtures where
  forms : NameMap Form := ∅
  lookups : NameMap (List SelectOption) := ∅
  responses : NameMap CallResponse := ∅
  users : List User := []
  channels : List Channel := []

/-- The channel is seen from a team. -/
def Channel.isIn (c : Channel) (teamId : Option String) : Bool :=
  match c.teamId, teamId with
  | some channelTeam, some team => channelTeam == team
  | _, _ => true

namespace Fixtures

/-- No answers. -/
def empty : Fixtures := {}

/-- A text starts with another one in any case. -/
def startsWith (typed name : String) : Bool :=
  Text.hasPrefix (Text.lowercase typed) (Text.lowercase name)

/-- The options of a field whose label or value starts with the query. -/
def options (f : Fixtures) (field query : String) : List SelectOption :=
  (f.lookups[field]?.getD []).filter fun o => startsWith query o.label || startsWith query o.value

/-- The answer to a lookup. -/
def lookUp (f : Fixtures) (r : CallRequest) : CallResponse :=
  match r.selectedField with
  | none => .error (some "lookup without a selected field")
  | some field =>
    .ok none (some (LookupResponse.mk (f.options field (r.query.getD ""))).toDatum.sorted)

/-- The answer to a call. -/
def answer (f : Fixtures) (r : CallRequest) : CallType → CallResponse
  | .form =>
    match f.forms[r.call.path]? with
    | some form => .form form
    | none => .error (some ("no form for `" ++ r.call.path ++ "`"))
  | .lookup => f.lookUp r
  | .submit =>
    f.responses[r.call.path]?.getD (.error (some ("no response for `" ++ r.call.path ++ "`")))

/-- The user of a name. -/
def user? (f : Fixtures) (name : String) : Option User :=
  f.users.find? fun u => Text.eqIgnoreAsciiCase u.username name

/-- The channel of a name that is seen from a team. -/
def channel? (f : Fixtures) (teamId : Option String) (name : String) : Option Channel :=
  f.channels.find? fun c => c.isIn teamId && Text.eqIgnoreAsciiCase c.name name

/-- The collaborator that answers with the fixtures. -/
def backend {m : Type → Type} [Monad m] (f : Fixtures) : Backend m where
  performCall r type := return .ok (f.answer r type)
  userByUsername name := return .ok (f.user? name)
  channelByName teamId name := return .ok (f.channel? teamId name)
  usersByPrefix typed := return .ok (f.users.filter fun u => startsWith typed u.username)
  channelsByPrefix teamId typed :=
    return .ok (f.channels.filter fun c => c.isIn teamId && startsWith typed c.name)

end Fixtures

end SlashCommand
