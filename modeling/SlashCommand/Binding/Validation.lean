import SlashCommand.Binding.Basic
import SlashCommand.Text.Blank
import Std.Data.HashSet

/-!
# Validation

A tree of bindings is well formed when every label is one token, no two siblings answer to the same
label, and every inline form is well formed.  A form is well formed when no two of its fields share a
name, a flag or a place, when at most one takes the rest of the line, and when each type makes sense
where it stands.

The checks go through a tree from the top, label before form before subcommands.  They collect the
defects in a list, and return it as soon as there is something in it: `Form.defects`,
`Binding.treeDefects` and `BindingPackage.defects`.  On the way they keep the names, the flags and
the positions of the fields that were checked, the labels of the siblings that were checked, and the
path from the top.

`Form.defect?`, `Binding.treeDefect?` and `BindingPackage.defect?` are the first defect alone, found
by looking back at the fields and the siblings before it.
-/

namespace SlashCommand

/-- A defect of a tree, a form or a package. -/
inductive Defect where
  | emptyPackageVersion
  | emptyBindingLabel (path : String)
  | whitespaceInLabel (label : String)
  | duplicateBinding (path : String)
  | emptyFieldName
  | duplicateField (name : String)
  | duplicateFlag (flag : String)
  | duplicatePosition (field : String) (position : Int)
  | invalidPosition (field : String) (position : Int)
  | restFieldNotText (field : String)
  | multipleRestFields (first second : String)
  | multiselectBool (field : String)
  | missingOptions (field : String)
deriving DecidableEq, Repr

/-- The wording of a defect. -/
def Defect.message : Defect → String
  | emptyPackageVersion => "package version cannot be empty"
  | emptyBindingLabel path => "binding label cannot be empty at path: " ++ path
  | whitespaceInLabel label => "binding label contains whitespace: " ++ label
  | duplicateBinding path => "duplicate binding at path: " ++ path
  | emptyFieldName => "field name cannot be empty"
  | duplicateField name => "duplicate field: " ++ name
  | duplicateFlag flag => "duplicate flag label: " ++ flag
  | duplicatePosition field position =>
    "duplicate position " ++ toString position ++ " on field: " ++ field
  | invalidPosition field position =>
    "invalid position " ++ toString position ++ " on field: " ++ field
  | restFieldNotText field => "rest field must be text: " ++ field
  | multipleRestFields first second => "multiple rest fields: " ++ first ++ ", " ++ second
  | multiselectBool field => "boolean field cannot be multiselect: " ++ field
  | missingOptions field => "static select has no options: " ++ field

/-! ## The checks -/

/-- What is kept while the fields of a form are checked: the defects, and of the fields that were
checked the names, the flags in small letters, the positions, and the name of the one that takes the
rest of the line. -/
structure FormCheck where
  defects : List Defect := []
  names : Std.HashSet String := ∅
  flags : Std.HashSet String := ∅
  positions : Std.HashSet Int := ∅
  rest : Option String := none

namespace FormCheck

/-- Adds a defect and returns all that were found. -/
def report (s : FormCheck) (d : Defect) : Except (List Defect) FormCheck :=
  .error (s.defects ++ [d])

/-- Checks the name and the flag of a field. -/
def checkNames (s : FormCheck) (f : Field) : Except (List Defect) FormCheck :=
  if Text.trim f.name == "" then s.report .emptyFieldName
  else if s.names.contains f.name then s.report (.duplicateField f.name)
  else if s.flags.contains (Text.lowercase f.flagName) then s.report (.duplicateFlag f.flagName)
  else
    .ok { s with
      names := s.names.insert f.name, flags := s.flags.insert (Text.lowercase f.flagName) }

/-- Checks the position of a field. -/
def checkPosition (s : FormCheck) (f : Field) : Except (List Defect) FormCheck :=
  if f.position = restPosition then
    if f.type ≠ .text then s.report (.restFieldNotText f.name)
    else
      match s.rest with
      | some first => s.report (.multipleRestFields first f.name)
      | none => .ok { s with rest := some f.name }
  else if 0 < f.position then
    if s.positions.contains f.position then s.report (.duplicatePosition f.name f.position)
    else .ok { s with positions := s.positions.insert f.position }
  else if f.position = 0 then .ok s
  else s.report (.invalidPosition f.name f.position)

/-- Checks whether the type of a field makes sense where it stands. -/
def checkType (s : FormCheck) (f : Field) : Except (List Defect) FormCheck :=
  if f.multiselect ∧ f.type = .bool then s.report (.multiselectBool f.name)
  else if f.type = .staticSelect ∧ f.options = [] then s.report (.missingOptions f.name)
  else .ok s

/-- Checks a field. -/
def checkField (s : FormCheck) (f : Field) : Except (List Defect) FormCheck := do
  let s ← s.checkNames f
  let s ← s.checkPosition f
  s.checkType f

end FormCheck

/-- The defects of a form. -/
def Form.defects (form : Form) : List Defect :=
  match form.fields.foldlM FormCheck.checkField {} with
  | .ok s => s.defects
  | .error ds => ds

namespace Binding

/-- A place in the tree: the labels on the way, separated by spaces, after a slash. -/
def displayPath (path : List String) : String := "/" ++ String.intercalate " " path

/-- The defects of siblings, and of what is below them, when `seen` has the labels of those that
were checked, in small letters, and `ds` is what was found.  The state is the path that leads to the
siblings: a label is put on it for what is below, and taken off again. -/
def levelDefects (seen : Std.HashSet String) (ds : List Defect) :
    List Binding → StateM (List String) (List Defect)
  | [] => return ds
  | ⟨_, label, _, _, _, _, _, form, children⟩ :: rest => do
    let word := Text.trim label
    if word == "" then
      return ds ++ [.emptyBindingLabel (displayPath (← get))]
    if Text.hasBlank label then
      return ds ++ [.whitespaceInLabel label]
    if seen.contains (Text.lowercase word) then
      return ds ++ [.duplicateBinding (displayPath ((← get) ++ [word]))]
    let ds := ds ++ (form.map Form.defects).getD []
    if form.isSome && !ds.isEmpty then
      return ds
    modify (· ++ [word])
    let ds := ds ++ (← levelDefects ∅ [] children)
    modify List.dropLast
    if !ds.isEmpty then
      return ds
    levelDefects (seen.insert (Text.lowercase word)) ds rest

/-- The defects of a tree. -/
def treeDefects (bindings : List Binding) : List Defect :=
  ((levelDefects ∅ [] bindings).run []).1

end Binding

/-- The defects of a package: an empty version, or the defects of its tree. -/
def BindingPackage.defects (p : BindingPackage) : List Defect :=
  if Text.trim p.version == "" then [.emptyPackageVersion]
  else Binding.treeDefects p.bindings

/-! ## The first defect -/

namespace Form

/-- The defect of a field's position, given the fields before it. -/
def positionDefect? (before : List Field) (f : Field) : Option Defect :=
  if f.position = restPosition then
    if f.type ≠ .text then some (.restFieldNotText f.name)
    else (before.find? fun g => g.position == restPosition).map fun g =>
      .multipleRestFields g.name f.name
  else if 0 < f.position then
    if before.any fun g => g.position == f.position then
      some (.duplicatePosition f.name f.position)
    else none
  else if f.position = 0 then none
  else some (.invalidPosition f.name f.position)

/-- The first defect of a field, given the fields before it. -/
def fieldDefect? (before : List Field) (f : Field) : Option Defect :=
  if Text.trim f.name == "" then some .emptyFieldName
  else if before.any fun g => g.name == f.name then some (.duplicateField f.name)
  else if before.any fun g => Text.eqIgnoreCase g.flagName f.flagName then
    some (.duplicateFlag f.flagName)
  else (positionDefect? before f).or <|
    if f.multiselect ∧ f.type = .bool then some (.multiselectBool f.name)
    else if f.type = .staticSelect ∧ f.options = [] then some (.missingOptions f.name)
    else none

/-- The first defect among fields that stand after the fields `before`. -/
def defectAfter? (before : List Field) : List Field → Option Defect
  | [] => none
  | f :: fs => (fieldDefect? before f).or (defectAfter? (before ++ [f]) fs)

/-- The first defect of a form. -/
def defect? (form : Form) : Option Defect := defectAfter? [] form.fields

end Form

namespace Binding

/-- The defect of a binding's label, given its siblings' labels before it. -/
def labelDefect? (path before : List String) (label : String) : Option Defect :=
  if Text.trim label == "" then some (.emptyBindingLabel (displayPath path))
  else if Text.hasBlank label then some (.whitespaceInLabel label)
  else if before.any fun l => Text.eqIgnoreCase l label then
    some (.duplicateBinding (displayPath (path ++ [label])))
  else none

/-- The first defect among siblings below `path` that stand after siblings with the labels
`before`. -/
def defectBelow? (path before : List String) : List Binding → Option Defect
  | [] => none
  | ⟨_, label, _, _, _, _, _, form, children⟩ :: rest =>
    (labelDefect? path before label).or <|
      (form.bind Form.defect?).or <|
        (defectBelow? (path ++ [label]) [] children).or (defectBelow? path (before ++ [label]) rest)

/-- The first defect of a tree. -/
def treeDefect? (bindings : List Binding) : Option Defect := defectBelow? [] [] bindings

end Binding

/-- The first defect of a package: an empty version, or a defect of its tree. -/
def BindingPackage.defect? (p : BindingPackage) : Option Defect :=
  if Text.trim p.version == "" then some .emptyPackageVersion
  else Binding.treeDefect? p.bindings

end SlashCommand
