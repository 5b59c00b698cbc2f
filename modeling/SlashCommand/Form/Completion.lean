import SlashCommand.Binding.Basic

/-!
# Completing the values of a form

A field may carry a default.  `fillDefaults` puts it in where the command line gave nothing, and for
a readonly field in any case.  `missingFields` names the required fields that have neither a value
nor a default.
-/

namespace SlashCommand

namespace Form

/-- The values with the default of a field put in. -/
def fillDefault (values : Values) (f : Field) : Values :=
  match f.defaultValue with
  | some default =>
    if !f.readonly && values.contains f.name then values
    else values.insert f.name (default.asList f.multiselect)
  | none => values

/-- The values with all defaults put in: those of absent fields and those of readonly ones. -/
def fillDefaults (form : Form) (values : Values) : Values := form.fields.foldl fillDefault values

/-- A required field without a value and without a default; an empty one counts as none. -/
def isMissing (values : Values) (f : Field) : Bool :=
  f.isRequired && values[f.name]?.all Value.isEmpty && f.defaultValue.all Value.isEmpty

/-- The required fields that are missing, in the order of the form. -/
def missingFields (form : Form) (values : Values) : List Field :=
  form.fields.filter (isMissing values)

end Form

/-- The call that a command submits to: that of its form, or else that of its binding. -/
def Binding.submitCall? (b : Binding) (form : Option Form) : Option Call :=
  (form.bind (·.call)).or b.call

end SlashCommand
