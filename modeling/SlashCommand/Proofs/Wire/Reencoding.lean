import SlashCommand.Proofs.Json.RoundTrip
import SlashCommand.Proofs.Wire.WholeNumbers
import SlashCommand.Wire.Suggestion

/-!
# Decoding what was decoded and encoded again

A text may write a value in several ways: with members left out or in another order, with keys that
nothing reads, as a list in place of a record.  Once it was decoded, the value has one encoding, and
decoding that gives the value again (`reencodes_wire`).
-/

namespace SlashCommand

open Datum

variable {n : Nat}

/-! ## What a lookup and a directory answer -/

theorem LookupResponse.restored (r : LookupResponse) :
    Restored (n + 3) LookupResponse.ofDatum? LookupResponse.toDatum r := by
  have heq : r.toDatum = .record (present [("items", some (.list (r.items.map SelectOption.toDatum)))]) :=
    rfl
  have hitems : Kept (n + 2) (orDefault (toList? SelectOption.ofDatum?) [])
      (some (.list (r.items.map SelectOption.toDatum))) r.items :=
    kept_orDefault (restored_list fun o _ => o.restored)
  rw [Restored, heq]
  refine ⟨nested_present ?_, ?_⟩
  · simp only [List.forall_mem_cons]
    exact ⟨hitems.1, List.forall_mem_nil _⟩
  · simp [LookupResponse.ofDatum?, hitems.2]

theorem User.restored (u : User) : Restored (n + 1) User.ofDatum? User.toDatum u := by
  have heq : u.toDatum =
      .record (present [("id", some (.text u.id)), ("username", some (.text u.username))]) := rfl
  have hid := kept_text (n := n) u.id
  have hname := kept_text (n := n) u.username
  rw [Restored, heq]
  refine ⟨nested_present ?_, ?_⟩
  · simp only [List.forall_mem_cons]
    exact ⟨hid.1, hname.1, List.forall_mem_nil _⟩
  · simp [User.ofDatum?, hid.2, hname.2]

namespace Channel

theorem toDatum_eq (c : Channel) : c.toDatum = .record (present
    [("id", some (.text c.id)), ("name", some (.text c.name)),
      ("display_name", some (.text c.displayName)), ("team_id", c.teamId.map .text)]) := by
  simp only [toDatum, member_eq_present, member?_eq_present, present_append, List.cons_append,
    List.nil_append]

theorem restored (c : Channel) : Restored (n + 1) ofDatum? toDatum c := by
  have hid := kept_text (n := n) c.id
  have hname := kept_text (n := n) c.name
  have hdisplay := kept_text_orDefault (n := n) c.displayName ""
  have hteam := kept_text? (n := n) c.teamId
  rw [Restored, toDatum_eq]
  refine ⟨nested_present ?_, ?_⟩
  · simp only [List.forall_mem_cons]
    exact ⟨hid.1, hname.1, hdisplay.1, hteam.1, List.forall_mem_nil _⟩
  · simp [ofDatum?, hid.2, hname.2, hdisplay.2, hteam.2]

end Channel

/-! ## Suggestions -/

namespace SuggestionSource

/-- The members behind the kind. -/
def members : SuggestionSource → List (String × Option Datum)
  | command label => [("label", some (.text label))]
  | flag field => [("field", some (.text field))]
  | user userId username => [("user_id", some (.text userId)), ("username", some (.text username))]
  | channel channelId name => [("channel_id", some (.text channelId)), ("name", some (.text name))]
  | staticOption option => [("option", some option.toDatum)]
  | dynamicOption option => [("option", some option.toDatum)]
  | literal value => [("value", some (.text value))]
  | execute => []
  | placeholder => []
  | error message => [("message", some (.text message))]

theorem toDatum_eq (s : SuggestionSource) :
    s.toDatum = .record (present (("kind", some (.text s.kindName)) :: s.members)) := by
  cases s <;> rfl

theorem members_ne_kind (s : SuggestionSource) : ∀ m ∈ s.members, m.1 ≠ "kind" := by
  cases s <;> simp [members]

theorem nested_members (s : SuggestionSource) :
    ∀ m ∈ s.members, ∀ d ∈ m.2, Nested IsWritten (n + 1) d := by
  have htext (t : String) : Nested IsWritten (n + 1) (.text t) := .leaf trivial
  have hoption (o : SelectOption) : Nested IsWritten (n + 1) o.toDatum := o.restored.1
  cases s <;> simp [members, htext, hoption]

theorem restored (s : SuggestionSource) : Restored (n + 2) ofDatum? toDatum s := by
  have hnested := s.nested_members (n := n)
  have htagged : tagged? "kind" (.record (present (("kind", some (.text s.kindName)) :: s.members))) =
      some (s.kindName, .record (present s.members)) := tagged?_present s.members_ne_kind hnested
  rw [Restored, toDatum_eq]
  refine ⟨nested_present (List.forall_mem_cons.mpr ⟨fun d hd => ?_, hnested⟩), ?_⟩
  · cases hd
    exact .leaf trivial
  · rw [ofDatum?, htagged]
    have hoption (o : SelectOption) : SelectOption.ofDatum? o.toDatum = some o :=
      (o.restored (n := 0)).2
    cases s <;> simp [kindName, members, ofText?, ofTexts?, ofOption?, bare?, toText?, hoption]

end SuggestionSource

namespace Suggestion

theorem restored (s : Suggestion) : Restored (n + 3) ofDatum? toDatum s := by
  have heq : s.toDatum = .record (present
      [("complete", some (.text s.complete)), ("suggestion", some (.text s.suggestion)),
        ("hint", some (.text s.hint)), ("description", some (.text s.description)),
        ("icon_data", some (.text s.iconData)), ("source", some s.source.toDatum)]) := rfl
  have hcomplete := kept_text (n := n + 2) s.complete
  have hsuggestion := kept_text (n := n + 2) s.suggestion
  have hhint := kept_text (n := n + 2) s.hint
  have hdescription := kept_text (n := n + 2) s.description
  have hicon := kept_text (n := n + 2) s.iconData
  have hsource := kept_required (n := n + 2) s.source.restored
  rw [Restored, heq]
  refine ⟨nested_present ?_, ?_⟩
  · simp only [List.forall_mem_cons]
    exact ⟨hcomplete.1, hsuggestion.1, hhint.1, hdescription.1, hicon.1, hsource.1, List.forall_mem_nil _⟩
  · simp [ofDatum?, hcomplete.2, hsuggestion.2, hhint.2, hdescription.2, hicon.2, hsource.2]

end Suggestion

/-! ## Packages -/

namespace BindingPackage

/-- The trees of a package start two levels below it. -/
theorem restored_of_occurs {p : BindingPackage} {k : Nat} (h : Occurs (2 * k + 1) ofDatum? p)
    (hwhole : p.WholeState) : Restored (2 * k + 1) ofDatum? toDatum p := by
  obtain ⟨d, hd, hread⟩ := h
  simp only [ofDatum?, Option.bind_eq_bind, Option.bind_eq_some_iff, Option.some.injEq] at hread
  obtain ⟨ms, hms, contractVersion, -, version, -, name, -, description, -, generatedAt, -,
    bindings, hbindings, rfl⟩ := hread
  obtain ⟨_, heq, hlevels⟩ := levels_of_members? hd hms
  cases heq
  obtain ⟨j, hj, hoccurs⟩ := occurs_of_toList? (exists_of_required hlevels hbindings)
  obtain ⟨k', rfl⟩ : ∃ k', k = k' + 1 := Nat.exists_eq_succ_of_ne_zero (by omega)
  obtain rfl : j = 2 * k' + 1 := by omega
  have htrees : Restored (2 * k' + 1 + 1) Binding.listOfDatum?
      (fun bs => .list (bs.map Binding.toDatum)) bindings :=
    restored_list fun b hb =>
      Binding.restored_of_occurs (hoccurs b hb) (Binding.allWholeState_iff.mp hwhole b hb)
  have htrees := kept_required htrees
  have hcontract := kept_text? (n := 2 * (k' + 1)) contractVersion
  have hversion := kept_text (n := 2 * (k' + 1)) version
  have hname := kept_textOrNull (n := 2 * (k' + 1)) name
  have hdescription := kept_textOrNull (n := 2 * (k' + 1)) description
  have hgenerated := kept_text (n := 2 * (k' + 1)) generatedAt
  rw [Restored, toDatum_eq]
  refine ⟨nested_present ?_, ?_⟩
  · simp only [List.forall_mem_cons]
    exact ⟨hcontract.1, hversion.1, hname.1, hdescription.1, hgenerated.1, htrees.1, List.forall_mem_nil _⟩
  · simp [ofDatum?, hcontract.2, hversion.2, hname.2, hdescription.2, hgenerated.2, htrees.2]

end BindingPackage

/-! ## Encoding again -/

/-- Whatever a text is decoded as is encoded as a text from which it is decoded again, if there are
no floating-point numbers in what it carries along. -/
def Reencodes {α : Type} (read : Datum → Option α) (write : α → Datum) (whole : α → Prop) : Prop :=
  ∀ (text : String) (x : α), (Json.parse text).bind read = some x → whole x →
    (Json.parse (Json.compact (write x))).bind read = some x

theorem reencodes_of_restored {α : Type} {read : Datum → Option α} {write : α → Datum}
    {whole : α → Prop}
    (h : ∀ x, Occurs Json.maxDepth read x → whole x → Restored Json.maxDepth read write x) :
    Reencodes read write whole := by
  intro text x hx hwhole
  obtain ⟨d, hd, hread⟩ := Option.bind_eq_some_iff.mp hx
  obtain ⟨hnested, hreread⟩ := h x ⟨d, Json.nested_of_parse hd, hread⟩ hwhole
  rw [Json.parse_compact hnested, Option.bind_some, hreread]

/-- **Encoding what was decoded is stable.**  For each of the types that are sent and stored, what a
text is decoded as, in whatever way the text writes it, is decoded again from its own encoding.  For
values that are carried along this asks that no floating-point number is among them, and none is
unless it is one of the text (`wholeState_of_hasWholeNumbers`). -/
theorem reencodes_wire :
    Reencodes Binding.ofDatum? Binding.toDatum Binding.WholeState ∧
    Reencodes Form.ofDatum? Form.toDatum Form.WholeState ∧
    Reencodes Field.ofDatum? Field.toDatum (fun _ => True) ∧
    Reencodes Value.ofDatum? Value.toDatum (fun _ => True) ∧
    Reencodes SelectOption.ofDatum? SelectOption.toDatum (fun _ => True) ∧
    Reencodes Call.ofDatum? Call.toDatum Call.WholeState ∧
    Reencodes CallContext.ofDatum? CallContext.toDatum (fun _ => True) ∧
    Reencodes TypedValue.ofDatum? TypedValue.toDatum (fun _ => True) ∧
    Reencodes CallRequest.ofDatum? CallRequest.toDatum CallRequest.WholeState ∧
    Reencodes CallResponse.ofDatum? CallResponse.toDatum CallResponse.WholeState ∧
    Reencodes LookupResponse.ofDatum? LookupResponse.toDatum (fun _ => True) ∧
    Reencodes User.ofDatum? User.toDatum (fun _ => True) ∧
    Reencodes Channel.ofDatum? Channel.toDatum (fun _ => True) ∧
    Reencodes Suggestion.ofDatum? Suggestion.toDatum (fun _ => True) ∧
    Reencodes BindingPackage.ofDatum? BindingPackage.toDatum BindingPackage.WholeState := by
  refine ⟨?_, ?_, ?_, ?_, ?_, ?_, ?_, ?_, ?_, ?_, ?_, ?_, ?_, ?_, ?_⟩
  · exact reencodes_of_restored fun b hb hwhole => Binding.restored_of_occurs (k := 63) hb hwhole
  · exact reencodes_of_restored fun f hf hwhole => Form.restored_of_occurs hf hwhole (by decide)
  · exact reencodes_of_restored fun f hf _ => Field.restored_of_occurs hf
  · exact reencodes_of_restored fun v hv _ => Value.restored_of_occurs hv
  · exact reencodes_of_restored fun o ho _ => SelectOption.restored_of_occurs ho
  · exact reencodes_of_restored fun c hc hwhole => Call.restored_of_occurs hc hwhole
  · exact reencodes_of_restored fun c _ _ => c.restored
  · exact reencodes_of_restored fun v hv _ => TypedValue.restored_of_occurs hv
  · exact reencodes_of_restored fun r hr hwhole =>
      CallRequest.restored_of_occurs (n := 123) hr hwhole
  · exact reencodes_of_restored fun r hr hwhole =>
      CallResponse.restored_of_occurs (n := 124) hr hwhole
  · exact reencodes_of_restored fun r _ _ => r.restored
  · exact reencodes_of_restored fun u _ _ => u.restored
  · exact reencodes_of_restored fun c _ _ => c.restored
  · exact reencodes_of_restored fun s _ _ => s.restored
  · exact reencodes_of_restored fun p hp hwhole =>
      BindingPackage.restored_of_occurs (k := 63) hp hwhole

/-- A call that is written as a list, with a state whose keys are out of order and doubled. -/
def unsortedCall : Datum :=
  .list [.text "/add", .record [("b", .bool true), ("a", .null), ("b", .number (.whole (-1)))]]

theorem reencodes_wire_unsortedCall :
    ∃ c, (Json.parse (Json.compact unsortedCall)).bind Call.ofDatum? = some c ∧
      (Json.parse (Json.compact c.toDatum)).bind Call.ofDatum? = some c := by
  have hnested : Nested IsWritten 2 unsortedCall := by
    refine .list (List.forall_mem_cons.mpr ⟨.leaf trivial, List.forall_mem_singleton.mpr ?_⟩)
    refine .record ?_
    simp only [List.forall_mem_cons]
    exact ⟨.leaf trivial, .leaf trivial, .leaf ⟨by decide, by decide⟩, List.forall_mem_nil _⟩
  have hread : (Json.parse (Json.compact unsortedCall)).bind Call.ofDatum? =
      some ⟨"/add", some (.record [("a", .null), ("b", .number (.whole (-1)))])⟩ := by
    rw [Json.parse_compact (hnested.mono (by decide))]
    rfl
  refine ⟨_, hread, reencodes_wire.2.2.2.2.2.1 _ _ hread fun d hd => ?_⟩
  cases hd
  rfl

end SlashCommand
