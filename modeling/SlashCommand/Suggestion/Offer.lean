import SlashCommand.Form.Completion
import SlashCommand.Scan.Basic
import SlashCommand.Suggestion.Basic
import SlashCommand.Text.Blank
import SlashCommand.Text.Lowercase

/-!
# What a scan offers

The suggestions that need nobody's answer: subcommands, flags, truth values, static options, an echo
of the text that is typed, and the offer to execute the command.  Each looks at where the scan of the
typed text stopped.

The `complete` of these suggestions is only what takes the place of the token under the cursor;
`splice` puts it into the command.
-/

namespace SlashCommand

namespace Scan

/-- The icon of the matched binding. -/
def icon (s : Scan) : String := (s.binding.bind (·.icon)).getD ""

/-- The next field by position, if it has no value yet. -/
def nextPositional? (s : Scan) (form : Form) : Option Field :=
  (form.positional? ((s.positionals : Int) + 1)).filter fun f => !s.values.contains f.name

/-- The field that a value typed next would belong to. -/
def awaitedField? (s : Scan) : Option Field :=
  match s.state with
  | .startParameter => s.form.bind s.nextPositional?
  | _ => s.currentField?

/-- A user or a channel is being typed. -/
def isTypingMention (s : Scan) : Bool :=
  s.awaitedField?.any fun f => f.type == .user || f.type == .channel

/-- Puts a suggestion in the place of the token under the cursor.  One with nothing to complete also
takes away the character in front of it. -/
def splice (s : Scan) (o : Suggestion) : Suggestion :=
  if o.isError then o
  else
    let text :=
      if o.complete == "" then s.textBefore (s.tokenStart - 1) ++ o.suggestion
      else s.textBefore s.tokenStart ++ o.complete
    { o with complete := Text.dropLeading '/' text }

/-- The subcommands whose label starts with the token. -/
def offerCommands (s : Scan) : List Suggestion :=
  let typed := Text.lowercase s.token
  (s.candidates.filter fun b => Text.hasPrefix typed (Text.lowercase b.label)).map fun b =>
    { complete := b.label
      suggestion := if s.binding.isNone then "/" ++ b.label else b.label
      hint := b.hint.getD ""
      description := b.description.getD ""
      iconData := b.icon.getD ""
      source := .command b.label }

/-- The number of dashes right before the token, up to two. -/
def typedDashes (s : Scan) : Nat :=
  (((s.text.take s.tokenStart).reverse.take 2).takeWhile (· == '-')).length

/-- The flags without a value whose name starts with the token.  The dashes that are not typed yet
are completed, and a field that takes lists gets its opening bracket. -/
def offerFlags (s : Scan) (form : Form) : List Suggestion :=
  let dashes := String.ofList (List.replicate (2 - s.typedDashes) '-')
  let typed := Text.lowercase s.token
  let fields := form.fields.filter fun f =>
    !f.readonly && !s.values.contains f.name && Text.hasPrefix typed (Text.lowercase f.flagName)
  fields.map fun f =>
    { complete := dashes ++ f.flagName ++ (if f.multiselect then " [" else "")
      suggestion := "--" ++ f.flagName
      hint := f.hint.getD ""
      description := f.description.getD ""
      iconData := s.icon
      source := .flag f.name }

/-- The truth values that start with the token. -/
def offerBools (s : Scan) (field : Field) : List Suggestion :=
  (["true", "false"].filter (Text.hasPrefix s.token)).map fun literal =>
    { complete := literal
      suggestion := literal
      hint := field.hint.getD ""
      description := field.description.getD ""
      iconData := s.icon
      source := .literal literal }

/-- A value between the quotation marks that are typed already, or between ticks if it has a space
or a tab in it. -/
def enclose (quote : Option Quote) (value : String) : String :=
  let mark := quote.or (if value.toList.any fun c => c == ' ' || c == '\t' then some .tick else none)
  match mark with
  | some q => q.char.toString ++ value ++ q.char.toString
  | none => value

/-- The static options whose label starts with the token. -/
def offerOptions (s : Scan) (field : Field) (quote : Option Quote) : List Suggestion :=
  let typed := Text.lowercase s.token
  match field.options.filter fun o => Text.hasPrefix typed (Text.lowercase o.label) with
  | [] => [.note "No matching options." ""]
  | options => options.map fun o =>
    { complete := enclose quote o.value
      suggestion := o.label
      hint := field.hint.getD ""
      description := field.description.getD ""
      iconData := o.iconData.getD s.icon
      source := .staticOption o }

/-- The token itself, or a note on the field where nothing is typed. -/
def echo (s : Scan) (quote : Option Quote) : Suggestion :=
  let field := s.currentField?
  let description := (field.bind (·.description)).getD ""
  if s.token == "" then .note description ((field.bind (·.hint)).getD "")
  else
    { complete :=
        match quote with
        | some q => q.char.toString ++ s.token ++ q.char.toString
        | none => s.token
      suggestion := s.token
      description := description
      iconData := s.icon
      source := .literal s.token }

/-- A note on a field that takes mentions where nothing is typed. -/
def mentionNote (s : Scan) (field : Field) (hint : String) : Suggestion :=
  { Suggestion.note (field.description.getD "") (field.hint.getD hint) with iconData := s.icon }

/-- The tokens that the open list of a field has, without the marks of mentions. -/
def listedTokens (s : Scan) (field : Field) : List String :=
  if s.state.isListElement then
    ((s.values[field.name]?.map Value.tokens).getD []).map fun token =>
      String.ofList (token.toList.dropWhile fun c => c == '@' || c == '~')
  else []

/-- The scan stopped where a command may end. -/
def isAtEnd (s : Scan) : Bool :=
  match s.state with
  | .command => s.token == ""
  | .endCommand | .commandSeparator | .startParameter | .parameterSeparator | .listEnd _
  | .rest _ => true
  | _ => false

/-- The offer to execute the command, where its text may end, its binding is a leaf with a call, and
no required field is missing. -/
def offerExecution? (s : Scan) : Option Suggestion := do
  let b ← s.binding
  guard (s.isAtEnd && b.isLeaf && (b.submitCall? s.form).isSome &&
    s.form.all fun form => (form.missingFields s.values).isEmpty)
  return {
    complete := Text.dropLeading '/' s.command
    suggestion := "Execute Current Command"
    description := "Select this option or use Ctrl+Enter to execute the current command."
    iconData := b.icon.getD ""
    source := .execute }

end Scan

end SlashCommand
