import SlashCommand.Binding.Validation
import SlashCommand.Config.Basic
import SlashCommand.Files.Basic
import SlashCommand.Text.Affix

/-!
# Databases of bindings

The top-level bindings that are known, in the order in which they are offered, and where they come
from.  A binding is found by its label up to ASCII case.
-/

namespace SlashCommand

/-- Where a database comes from; `anyOf` is the first of several sources that could be loaded. -/
inductive Origin where
  | source (source : BindingSource)
  | memory
  | anyOf (sources : List BindingSource)
deriving DecidableEq, Repr

/-- Top-level bindings and where they come from. -/
structure Database where
  bindings : List Binding
  origin : Origin

/-- Why a file that could be opened is no document of some kind: its content cannot be read as a
text, or the text is no such document. -/
inductive DecodeError where
  | unreadable (error : FileError)
  | notOfKind
deriving DecidableEq, Repr

def DecodeError.message : DecodeError → String
  | unreadable e => e.message
  | notOfKind => "not a document of this kind"

/-- Why there is no database, configuration or fixtures.  An error of a decoder comes with what the
decoder says, which is implicit because a caller goes by the kind of document. -/
inductive DatabaseError where
  | io (error : FileError)
  | json {error : DecodeError}
  | yaml {error : DecodeError}
  | invalid (defects : List Defect)
  | noSources
deriving DecidableEq, Repr

/-- The wording of a database error. -/
def DatabaseError.message : DatabaseError → String
  | io e => "I/O error: " ++ e.message
  | @json e => "JSON error: " ++ e.message
  | @yaml e => "YAML error: " ++ e.message
  | invalid ds => "invalid bindings: " ++ "; ".intercalate (ds.map Defect.message)
  | noSources => "no binding sources available"

namespace Database

/-- Goes on if there are no defects. -/
def check (ds : List Defect) : Except DatabaseError Unit :=
  if ds.isEmpty then .ok () else .error (.invalid ds)

/-- The database of well-formed bindings. -/
def ofBindings (bindings : List Binding) (origin : Origin) : Except DatabaseError Database := do
  check (Binding.treeDefects bindings)
  return ⟨bindings, origin⟩

/-- The database of the bindings in a well-formed package. -/
def ofPackage (package : BindingPackage) (origin : Origin) : Except DatabaseError Database := do
  check package.defects
  return ⟨package.bindings, origin⟩

/-- The binding of a label. -/
def get? (db : Database) (label : String) : Option Binding :=
  db.bindings.find? fun b => Text.eqIgnoreAsciiCase b.label label

/-- There is a binding of a label. -/
def contains (db : Database) (label : String) : Bool := (db.get? label).isSome

/-- Puts a binding in the place of the first one with its label, or at the end. -/
def insertInto (binding : Binding) : List Binding → List Binding
  | [] => [binding]
  | b :: bs =>
    if Text.eqIgnoreAsciiCase b.label binding.label then binding :: bs
    else b :: insertInto binding bs

/-- Puts a binding in the place of the one with its label, or at the end. -/
def insert (db : Database) (binding : Binding) : Database :=
  { db with bindings := insertInto binding db.bindings }

/-- The bindings as a package. -/
def toPackage (db : Database) (version generatedAt : String) : BindingPackage :=
  { BindingPackage.empty version generatedAt with bindings := db.bindings }

end Database

end SlashCommand
