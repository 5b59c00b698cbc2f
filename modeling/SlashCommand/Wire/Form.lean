import SlashCommand.Form.Basic
import SlashCommand.Wire.Codec

/-!
# Forms as documents

The written form of fields, options, calls and forms.  Members that are absent are left out, except
for the flags and the position of a field, which are always written.
-/

namespace SlashCommand

/-- The written names of the field types. -/
def FieldType.names : List (String × FieldType) :=
  [("text", .text), ("bool", .bool), ("user", .user), ("channel", .channel),
    ("static_select", .staticSelect), ("dynamic_select", .dynamicSelect)]

/-- The written name of a field type. -/
def FieldType.toDatum : FieldType → Datum
  | text => .text "text"
  | bool => .text "bool"
  | user => .text "user"
  | channel => .text "channel"
  | staticSelect => .text "static_select"
  | dynamicSelect => .text "dynamic_select"

/-- Reads a field type. -/
def FieldType.ofDatum? : Datum → Option FieldType := Datum.toName? false FieldType.names

/-- Reads a field type from a buffered document. -/
def FieldType.ofBuffered? : Datum → Option FieldType := Datum.toName? true FieldType.names

namespace SelectOption

/-- Writes an option. -/
def toDatum (o : SelectOption) : Datum :=
  .record (Datum.member "label" (.text o.label) ++ Datum.member "value" (.text o.value) ++
    Datum.member? "icon_data" (o.iconData.map .text))

/-- Reads an option. -/
def ofDatum? (d : Datum) : Option SelectOption := do
  let ms ← d.members? ["label", "value", "icon_data"]
  let label ← Datum.required ms "label" Datum.toText?
  let value ← Datum.required ms "value" Datum.toText?
  let iconData ← Datum.optional ms "icon_data" Datum.toText?
  some ⟨label, value, iconData⟩

end SelectOption

namespace Value

/-- Writes a raw value: a scalar as a text, a list as a list of texts. -/
def toDatum : Value → Datum
  | scalar token => .text token
  | list tokens => Datum.ofTexts tokens

/-- Reads a raw value, whose shape says which of the two it is. -/
def ofDatum? (d : Datum) : Option Value := do
  let d ← d.settled?
  match d with
  | .text token => some (.scalar token)
  | d => d.toTexts?.map .list

end Value

namespace Field

/-- Writes a field. -/
def toDatum (f : Field) : Datum :=
  .record (Datum.member "name" (.text f.name) ++ Datum.member "type" f.type.toDatum ++
    Datum.member? "label" (f.label.map .text) ++ Datum.member? "hint" (f.hint.map .text) ++
    Datum.member? "description" (f.description.map .text) ++
    Datum.member "is_required" (.bool f.isRequired) ++
    Datum.member "readonly" (.bool f.readonly) ++
    Datum.member "position" (Datum.ofInt f.position) ++
    Datum.member "multiselect" (.bool f.multiselect) ++
    Datum.memberList "options" (f.options.map SelectOption.toDatum) ++
    Datum.member? "value" (f.defaultValue.map Value.toDatum))

/-- Reads a field, given how its type is read; its position is a signed number of thirty-two bits. -/
def readWith (readType : Datum → Option FieldType) (d : Datum) : Option Field := do
  let ms ← d.members? ["name", "type", "label", "hint", "description", "is_required", "readonly",
    "position", "multiselect", "options", "value"]
  let name ← Datum.required ms "name" Datum.toText?
  let type ← Datum.defaulted ms "type" readType .text
  let label ← Datum.optional ms "label" Datum.toText?
  let hint ← Datum.optional ms "hint" Datum.toText?
  let description ← Datum.optional ms "description" Datum.toText?
  let isRequired ← Datum.defaulted ms "is_required" Datum.toBool? false
  let readonly ← Datum.defaulted ms "readonly" Datum.toBool? false
  let position ← Datum.defaulted ms "position" (Datum.toInt? (-Int.pow 2 31) (Int.pow 2 31 - 1)) 0
  let multiselect ← Datum.defaulted ms "multiselect" Datum.toBool? false
  let options ← Datum.defaulted ms "options" (Datum.toList? SelectOption.ofDatum?) []
  let defaultValue ← Datum.optional ms "value" Value.ofDatum?
  some ⟨name, type, label, hint, description, isRequired, readonly, position, multiselect, options,
    defaultValue⟩

/-- Reads a field. -/
def ofDatum? : Datum → Option Field := readWith FieldType.ofDatum?

/-- Reads a field from a buffered document. -/
def ofBuffered? : Datum → Option Field := readWith FieldType.ofBuffered?

end Field

namespace Call

/-- Writes a call. -/
def toDatum (c : Call) : Datum :=
  .record (Datum.member "path" (.text c.path) ++ Datum.member? "state" c.state)

/-- Reads a call. -/
def ofDatum? (d : Datum) : Option Call := do
  let ms ← d.members? ["path", "state"]
  let path ← Datum.required ms "path" Datum.toText?
  let state ← Datum.optional ms "state" Datum.verbatim?
  some ⟨path, state⟩

end Call

namespace Form

/-- Writes a form. -/
def toDatum (f : Form) : Datum :=
  .record (Datum.member? "title" (f.title.map .text) ++
    Datum.member "fields" (.list (f.fields.map Field.toDatum)) ++
    Datum.member? "call" (f.call.map Call.toDatum))

/-- Reads a form, given how its fields are read. -/
def readWith (readField : Datum → Option Field) (d : Datum) : Option Form := do
  let ms ← d.members? ["title", "fields", "call"]
  let title ← Datum.optional ms "title" Datum.toText?
  let fields ← Datum.defaulted ms "fields" (Datum.toList? readField) []
  let call ← Datum.optional ms "call" Call.ofDatum?
  some ⟨title, fields, call⟩

/-- Reads a form. -/
def ofDatum? : Datum → Option Form := readWith Field.ofDatum?

/-- Reads a form from a buffered document. -/
def ofBuffered? : Datum → Option Form := readWith Field.ofBuffered?

end Form

end SlashCommand
