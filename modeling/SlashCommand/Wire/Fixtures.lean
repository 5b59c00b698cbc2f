import SlashCommand.Fixtures.Basic

/-!
# Fixtures as documents

The written form of fixtures.  All parts are written, and what is missing is read as empty.
-/

namespace SlashCommand.Fixtures

/-- Writes fixtures. -/
def toDatum (f : Fixtures) : Datum :=
  .record (Datum.member "forms" (Datum.ofMap Form.toDatum f.forms) ++
    Datum.member "lookups"
      (Datum.ofMap (fun os => .list (os.map SelectOption.toDatum)) f.lookups) ++
    Datum.member "responses" (Datum.ofMap CallResponse.toDatum f.responses) ++
    Datum.member "users" (.list (f.users.map User.toDatum)) ++
    Datum.member "channels" (.list (f.channels.map Channel.toDatum)))

/-- Reads fixtures. -/
def ofDatum? (d : Datum) : Option Fixtures := do
  let ms ← d.members? ["forms", "lookups", "responses", "users", "channels"]
  let forms ← Datum.defaulted ms "forms" (Datum.toMap? Form.ofDatum?) ∅
  let lookups ← Datum.defaulted ms "lookups"
    (Datum.toMap? (Datum.toList? SelectOption.ofDatum?)) ∅
  let responses ← Datum.defaulted ms "responses" (Datum.toMap? CallResponse.ofDatum?) ∅
  let users ← Datum.defaulted ms "users" (Datum.toList? User.ofDatum?) []
  let channels ← Datum.defaulted ms "channels" (Datum.toList? Channel.ofDatum?) []
  some ⟨forms, lookups, responses, users, channels⟩

end SlashCommand.Fixtures
