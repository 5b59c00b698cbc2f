import SlashCommand.Binding.Basic
import SlashCommand.Wire.Form

/-!
# Bindings as documents

A binding is written with its subcommands inside it.  Reading one recurses into the member
`bindings`, whose items are smaller documents.
-/

namespace SlashCommand

namespace Binding

mutual

/-- Writes a binding. -/
def toDatum : Binding → Datum
  | ⟨appId, label, location, icon, hint, description, call, form, bindings⟩ =>
    .record (Datum.member "app_id" (.text appId) ++ Datum.member "label" (.text label) ++
      Datum.member "location" (.text location) ++ Datum.member? "icon" (icon.map .text) ++
      Datum.member? "hint" (hint.map .text) ++ Datum.member? "description" (description.map .text) ++
      Datum.member? "call" (call.map Call.toDatum) ++ Datum.member? "form" (form.map Form.toDatum) ++
      Datum.memberList "bindings" (toData bindings))

/-- Writes several bindings. -/
def toData : List Binding → List Datum
  | [] => []
  | b :: bs => toDatum b :: toData bs

end

/-- The members of a binding, in order. -/
def keys : List String :=
  ["app_id", "label", "location", "icon", "hint", "description", "call", "form", "bindings"]

/-- Reads a binding. -/
def ofDatum? (d : Datum) : Option Binding :=
  match _members : d.members? keys with
  | none => none
  | some ms => do
    let appId ← Datum.defaulted ms "app_id" Datum.toText? ""
    let label ← Datum.required ms "label" Datum.toText?
    let location ← Datum.defaulted ms "location" Datum.toText? ""
    let icon ← Datum.optional ms "icon" Datum.toText?
    let hint ← Datum.optional ms "hint" Datum.toText?
    let description ← Datum.optional ms "description" Datum.toText?
    let call ← Datum.optional ms "call" Call.ofDatum?
    let form ← Datum.optional ms "form" Form.ofDatum?
    let bindings ← match _children : Datum.find? "bindings" ms with
      | none => some []
      | some children =>
        match _items : children.items? with
        | none => none
        | some items => items.attach.mapM fun ⟨child, _⟩ => ofDatum? child
    some ⟨appId, label, location, icon, hint, description, call, form, bindings⟩
termination_by sizeOf d
decreasing_by
  have h₁ := Datum.sizeOf_member_lt _members _children
  have h₂ := Datum.sizeOf_item_lt _items (by assumption)
  omega

/-- Reads a list of bindings. -/
def listOfDatum? : Datum → Option (List Binding) := Datum.toList? ofDatum?

end Binding

namespace BindingPackage

/-- Writes a package; its name and description are written even when there is none. -/
def toDatum (p : BindingPackage) : Datum :=
  .record (Datum.member? "contract_version" (p.contractVersion.map .text) ++
    Datum.member "version" (.text p.version) ++
    Datum.member "name" ((p.name.map Datum.text).getD .null) ++
    Datum.member "description" ((p.description.map Datum.text).getD .null) ++
    Datum.member "generated_at" (.text p.generatedAt) ++
    Datum.member "bindings" (.list (Binding.toData p.bindings)))

/-- Reads a package. -/
def ofDatum? (d : Datum) : Option BindingPackage := do
  let ms ← d.members? ["contract_version", "version", "name", "description", "generated_at",
    "bindings"]
  let contractVersion ← Datum.optional ms "contract_version" Datum.toText?
  let version ← Datum.required ms "version" Datum.toText?
  let name ← Datum.optional ms "name" Datum.toText?
  let description ← Datum.optional ms "description" Datum.toText?
  let generatedAt ← Datum.required ms "generated_at" Datum.toText?
  let bindings ← Datum.required ms "bindings" Binding.listOfDatum?
  some ⟨contractVersion, version, name, description, generatedAt, bindings⟩

end BindingPackage

end SlashCommand
