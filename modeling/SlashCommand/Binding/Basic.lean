import SlashCommand.Form.Basic
import SlashCommand.Text.Lowercase

/-!
# Bindings

The commands that apps publish form a tree.  An inner binding groups subcommands, and a leaf carries
the form of its parameters, inline or behind a call that fetches it.  A binding is chosen by typing
its label in any case; among bindings of equal labels the first is meant.
-/

namespace SlashCommand

/-- A node of the command tree.  An empty `appId` is inherited from the closest ancestor with one,
and an empty `location` is replaced by the label. -/
structure Binding where
  appId : String := ""
  label : String
  location : String := ""
  icon : Option String := none
  hint : Option String := none
  description : Option String := none
  call : Option Call := none
  form : Option Form := none
  bindings : List Binding := []
deriving BEq, Repr, Inhabited

namespace Binding

/-- The binding of a label whose location is the label. -/
def ofLabel (label : String) : Binding := ⟨"", label, label, none, none, none, none, none, []⟩

/-- The segment that names the binding in locations. -/
def locationSegment (b : Binding) : String := if b.location == "" then b.label else b.location

/-- The binding has no subcommands. -/
def isLeaf (b : Binding) : Bool := b.bindings.isEmpty

/-- The first of several bindings with the given label, in any case. -/
def find? (bindings : List Binding) (label : String) : Option Binding :=
  bindings.find? fun b => Text.eqIgnoreCase b.label label

/-- The subcommand with the given label, in any case. -/
def child? (b : Binding) (label : String) : Option Binding := find? b.bindings label

end Binding

/-- The version of the binding format that new packages name. -/
def contractVersion : String := "1.0.0"

/-- Top-level bindings in one bundle, with what is known about its making. -/
structure BindingPackage where
  contractVersion : Option String := none
  version : String
  name : Option String := none
  description : Option String := none
  generatedAt : String
  bindings : List Binding := []
deriving BEq, Repr, Inhabited

/-- A new package without bindings. -/
def BindingPackage.empty (version generatedAt : String) : BindingPackage :=
  ⟨some SlashCommand.contractVersion, version, none, none, generatedAt, []⟩

end SlashCommand
