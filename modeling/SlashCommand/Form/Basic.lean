import SlashCommand.Datum.Basic
import SlashCommand.Form.Value

/-!
# Forms

A form is the schema of the parameters of one command.  Its fields are given by flag, as in
`--project KEY`, and those with a positive position also by place: the position counts from one.  A
text field at position `-1` takes the rest of the line, verbatim.

A field is matched as a flag by its label, or by its name if it has none.
-/

namespace SlashCommand

/-- The type of a field. -/
inductive FieldType where
  | text
  | bool
  | user
  | channel
  | staticSelect
  | dynamicSelect
deriving DecidableEq, Repr, Inhabited

/-- The field takes one of several options, known in advance or looked up. -/
def FieldType.isSelect : FieldType → Bool
  | staticSelect => true
  | dynamicSelect => true
  | _ => false

/-- An option of a select field: the label that is shown and the value that is submitted. -/
structure SelectOption where
  label : String
  value : String
  iconData : Option String := none
deriving DecidableEq, Repr, Inhabited

/-- The position of the field that takes the rest of the line. -/
def restPosition : Int := -1

/-- One named parameter of a form. -/
structure Field where
  name : String
  type : FieldType := .text
  label : Option String := none
  hint : Option String := none
  description : Option String := none
  isRequired : Bool := false
  readonly : Bool := false
  position : Int := 0
  multiselect : Bool := false
  options : List SelectOption := []
  defaultValue : Option Value := none
deriving DecidableEq, Repr, Inhabited

namespace Field

/-- The name the field has as a flag. -/
def flagName (f : Field) : String := f.label.getD f.name

/-- The field can be given by its place. -/
def isPositional (f : Field) : Bool := 0 < f.position

/-- The field takes the rest of the line. -/
def isRest (f : Field) : Bool := f.position == restPosition && f.type == .text

end Field

/-- A call to the app that owns a command: the path that handles it, and a state that the app gets
back as it is. -/
structure Call where
  path : String
  state : Option Datum := none
deriving BEq, Repr, Inhabited

/-- The schema of the parameters of a command, and the call that takes them. -/
structure Form where
  title : Option String := none
  fields : List Field := []
  call : Option Call := none
deriving BEq, Repr, Inhabited

namespace Form

/-- The field of the given name. -/
def field? (f : Form) (name : String) : Option Field := f.fields.find? (·.name == name)

/-- The field at the given position. -/
def positional? (f : Form) (position : Int) : Option Field :=
  f.fields.find? (·.position == position)

/-- The field that takes the rest of the line. -/
def restField? (f : Form) : Option Field := f.fields.find? (·.isRest)

end Form

end SlashCommand
