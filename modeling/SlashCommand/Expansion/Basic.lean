import SlashCommand.Call.Backend
import SlashCommand.Expansion.Error
import SlashCommand.Text.Affix

/-!
# Expanding values

Raw values become typed ones by the type of their field.  Texts stay as they are, truth values are
spelled out, and a token of any other field is resolved to an option: a user or a channel through
the directory, a static option by its value, and a dynamic one by taking the token as the value,
which the app checks when the call is made.

The tokens of a list are resolved in order, and the first that cannot be resolved, or that resolves
to what an earlier one did, is the error of the field.  All fields are expanded whatever happens to
the others, and their errors are reported together in the order of the form.
-/

namespace SlashCommand

variable {m : Type → Type} [Monad m]

/-- What the tokens of a field refer to, unless they are read as texts or truth values. -/
def FieldType.referent : FieldType → Referent
  | user => .user
  | channel => .channel
  | _ => .option

/-- The name that the directory shows for a channel. -/
def Channel.shownName (c : Channel) : String := if c.displayName == "" then c.name else c.displayName

namespace Expansion

/-- The option for what a directory found, or the error of not finding it. -/
def found (field : Field) (referent : Referent) (token : String) (toOption : α → SelectOption) :
    Except BackendError (Option α) → Except ExpansionError SelectOption
  | .ok (some a) => .ok (toOption a)
  | .ok none => .error ⟨field.name, .unknown referent token⟩
  | .error e => .error ⟨field.name, .lookupFailed e.message⟩

/-- Resolves one token of a field to an option.  A mention loses its leading mark before it is
looked up. -/
def resolve (backend : Backend m) (teamId : Option String) (field : Field) (token : String) :
    m (Except ExpansionError SelectOption) :=
  match field.type with
  | .user => do
    return found field .user token (fun u => ⟨u.username, u.id, none⟩)
      (← backend.userByUsername (Text.dropLeading '@' token))
  | .channel => do
    return found field .channel token (fun c => ⟨c.shownName, c.id, none⟩)
      (← backend.channelByName teamId (Text.dropLeading '~' token))
  | .dynamicSelect => return .ok ⟨"", token, none⟩
  | _ => return found field .option token id (.ok (field.options.find? (·.value == token)))

/-- Resolves the tokens of a list behind those that are resolved already. -/
def resolveAfter (backend : Backend m) (teamId : Option String) (field : Field)
    (resolved : List SelectOption) : List String → m (Except ExpansionError (List SelectOption))
  | [] => return .ok resolved
  | token :: tokens => do
    match ← resolve backend teamId field token with
    | .error e => return .error e
    | .ok option =>
      if resolved.any (·.value == option.value) then
        return .error ⟨field.name, .duplicate field.type.referent token⟩
      else resolveAfter backend teamId field (resolved ++ [option]) tokens

/-- Expands the value of one field. -/
def expandField (backend : Backend m) (teamId : Option String) (field : Field) (value : Value) :
    m (Except ExpansionError TypedValue) :=
  match field.type, value with
  | .text, .scalar token => return .ok (.text token)
  | .text, .list tokens => return .ok (.texts tokens)
  | .bool, .scalar "true" => return .ok (.bool true)
  | .bool, .scalar "false" => return .ok (.bool false)
  | .bool, value =>
    return .error ⟨field.name, .invalidBool (", ".intercalate value.tokens)⟩
  | _, .scalar token => return (← resolve backend teamId field token).map .option
  | _, .list tokens => return (← resolveAfter backend teamId field [] tokens).map .options

/-- Sorts results into the errors, or the values by name if there is no error. -/
def collect (results : List (String × Except ExpansionError TypedValue)) :
    Except (List ExpansionError) (NameMap TypedValue) :=
  let errors := results.filterMap fun (_, r) =>
    match r with
    | .error e => some e
    | .ok _ => none
  if errors.isEmpty then
    .ok <| results.foldl (fun map (name, r) =>
      match r with
      | .ok v => map.insert name v
      | .error _ => map) ∅
  else .error errors

/-- Expands the values of all fields that have one. -/
def expandValues (backend : Backend m) (teamId : Option String) (form : Form) (values : Values) :
    m (Except (List ExpansionError) (NameMap TypedValue)) := do
  let present := form.fields.filterMap fun f => values[f.name]?.map (f, ·)
  let results ← present.mapM fun (f, v) => return (f.name, ← expandField backend teamId f v)
  return collect results

end Expansion

end SlashCommand
