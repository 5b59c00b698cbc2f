import SlashCommand.Proofs.Json.Reading
import SlashCommand.Proofs.Wire.Calls
import SlashCommand.Wire.Binding

/-!
# Whole numbers in what is carried along

What a call carries along, and the data of an answer, are written again as they are only if there is
no floating-point number in them.  Where a text has whole numbers alone (`Json.HasWholeNumbers`), none
is in anything that is decoded from it: the numbers that are carried along are numbers of the text
(`wholeState_of_hasWholeNumbers`).
-/

namespace SlashCommand

open Datum

namespace Datum

/-- A document of a JSON text that has at most `n` levels and no floating-point numbers. -/
structure IsWhole (n : Nat) (d : Datum) : Prop where
  nested : Nested IsRead n d
  noFloat : d.hasFloat = false

variable {α : Type} {n : Nat} {d : Datum} {key : String} {keys : List String}
  {items : List Datum} {ms : List (String × Datum)} {read : Datum → Option α} {x : α}

theorem IsWhole.of_list (h : IsWhole n (.list items)) :
    ∃ k, n = k + 1 ∧ ∀ d ∈ items, IsWhole k d := by
  obtain ⟨k, rfl, hitems⟩ := h.nested.of_list
  have hfloat := h.noFloat
  rw [hasFloat, itemsHaveFloat_eq_any, List.any_eq_false] at hfloat
  exact ⟨k, rfl, fun d hd => ⟨hitems d hd, Bool.eq_false_iff.mpr (hfloat d hd)⟩⟩

theorem IsWhole.of_record (h : IsWhole n (.record ms)) :
    ∃ k, n = k + 1 ∧ ∀ m ∈ ms, IsWhole k m.2 := by
  obtain ⟨k, rfl, hms⟩ := h.nested.of_record
  have hfloat := h.noFloat
  rw [hasFloat, membersHaveFloat_eq_any, List.any_eq_false] at hfloat
  exact ⟨k, rfl, fun m hm => ⟨hms m hm, Bool.eq_false_iff.mpr (hfloat m hm)⟩⟩

theorem IsWhole.of_members? (h : IsWhole n d) (hms : d.members? keys = some ms) :
    ∃ k, n = k + 1 ∧ ∀ m ∈ ms, IsWhole k m.2 := by
  rcases members?_cases h.nested hms with rfl | ⟨items, rfl, hitems⟩
  · exact h.of_record
  · obtain ⟨k, rfl, hwhole⟩ := h.of_list
    exact ⟨k, rfl, fun m hm => hwhole m.2 (hitems m hm)⟩

theorem IsWhole.of_toList? {xs : List α} (h : IsWhole n d) (hxs : toList? read d = some xs) :
    ∃ k, n = k + 1 ∧ ∀ x ∈ xs, ∃ d, IsWhole k d ∧ read d = some x := by
  obtain ⟨items, hitems, hread⟩ := Option.bind_eq_some_iff.mp hxs
  cases d with
  | list items' =>
    cases hitems
    obtain ⟨k, rfl, hwhole⟩ := h.of_list
    refine ⟨k, rfl, fun x hx => ?_⟩
    obtain ⟨d, hd, hdx⟩ := exists_mem_of_mapM hread x hx
    exact ⟨d, hwhole d hd, hdx⟩
  | _ => cases hitems

/-- What belongs to a kind has no floating-point numbers if the whole has none. -/
theorem IsWhole.of_tagged? {tag kind : String} {rest : Datum} (h : IsWhole n d)
    (htagged : tagged? tag d = some (kind, rest)) : IsWhole n rest := by
  refine ⟨nested_of_tagged? h.nested htagged, ?_⟩
  cases d with
  | record ms =>
    obtain ⟨k, rfl, hwhole⟩ := h.of_record
    rw [tagged?] at htagged
    split at htagged
    · obtain ⟨others, hothers, hrest⟩ := Option.bind_eq_some_iff.mp htagged
      obtain ⟨_, -, hpair⟩ := Option.bind_eq_some_iff.mp hrest
      cases hpair
      have hmembers : ∀ m ∈ ms.filter (·.1 != tag), IsWhole k m.2 :=
        fun m hm => hwhole m (List.mem_of_mem_filter hm)
      obtain ⟨rfl, -⟩ := (settledMembers?_eq_some_iff fun m hm d' =>
        (hmembers m hm).nested.settled?_eq_some_iff).mp hothers
      rw [hasFloat, membersHaveFloat_eq_any, List.any_eq_false]
      exact fun m hm => Bool.eq_false_iff.mp (hmembers m hm).noFloat
    · cases htagged
  | list items =>
    obtain ⟨k, rfl, hwhole⟩ := h.of_list
    cases items with
    | nil => cases htagged
    | cons first items =>
      obtain ⟨_, -, hrest⟩ := Option.bind_eq_some_iff.mp htagged
      obtain ⟨others, hothers, hpair⟩ := Option.bind_eq_some_iff.mp hrest
      cases hpair
      obtain ⟨-, hitems⟩ := List.forall_mem_cons.mp hwhole
      obtain ⟨rfl, -⟩ := (settledItems?_eq_some_iff fun d hd d' =>
        (hitems d hd).nested.settled?_eq_some_iff).mp hothers
      rw [hasFloat, itemsHaveFloat_eq_any, List.any_eq_false]
      exact fun d hd => Bool.eq_false_iff.mp (hitems d hd).noFloat
  | mapping es =>
    cases h.nested with
    | leaf h => exact absurd h (by rintro (h | h) <;> cases h)
  | _ => cases htagged

/-- A value that is carried along has only numbers of the document that it was read from. -/
theorem noFloat_of_optional {o : Option Datum} (hms : ∀ m ∈ ms, IsWhole n m.2)
    (h : optional ms key verbatim? = some o) : ∀ d ∈ o, d.hasFloat = false := by
  intro d hd
  obtain ⟨source, hsource, -, hread⟩ := exists_of_optional hms h d hd
  exact hsource.nested.hasFloat_verbatim? hread hsource.noFloat

end Datum

variable {n : Nat} {d : Datum}

theorem Call.wholeState_of_isWhole {c : Call} (hd : IsWhole n d) (h : ofDatum? d = some c) :
    c.WholeState := by
  simp only [ofDatum?, Option.bind_eq_bind, Option.bind_eq_some_iff, Option.some.injEq] at h
  obtain ⟨ms, hms, path, -, state, hstate, rfl⟩ := h
  obtain ⟨k, rfl, hwhole⟩ := hd.of_members? hms
  exact noFloat_of_optional hwhole hstate

theorem Form.wholeState_of_isWhole {readField : Datum → Option Field} {f : Form}
    (hd : IsWhole n d) (h : readWith readField d = some f) : f.WholeState := by
  simp only [readWith, Option.bind_eq_bind, Option.bind_eq_some_iff, Option.some.injEq] at h
  obtain ⟨ms, hms, title, -, fields, -, call, hcall, rfl⟩ := h
  obtain ⟨k, rfl, hwhole⟩ := hd.of_members? hms
  intro c hc
  obtain ⟨source, hsource, -, hread⟩ := exists_of_optional hwhole hcall c hc
  exact Call.wholeState_of_isWhole hsource hread

/-- By induction on the levels, of which the subcommands have fewer. -/
theorem Binding.wholeState_of_isWhole {b : Binding} (hd : IsWhole n d) (h : ofDatum? d = some b) :
    b.WholeState := by
  induction n using Nat.strongRecOn generalizing d b with
  | ind n ih =>
  rw [ofDatum?_eq] at h
  simp only [Option.bind_eq_bind, Option.bind_eq_some_iff, Option.some.injEq] at h
  obtain ⟨ms, hms, appId, -, label, -, location, -, icon, -, hint, -, description, -, call, hcall,
    form, hform, bindings, hbindings, rfl⟩ := h
  obtain ⟨k, rfl, hwhole⟩ := hd.of_members? hms
  refine ⟨fun c hc => ?_, fun f hf => ?_, allWholeState_iff.mpr fun b hb => ?_⟩
  · obtain ⟨source, hsource, -, hread⟩ := exists_of_optional hwhole hcall c hc
    exact Call.wholeState_of_isWhole hsource hread
  · obtain ⟨source, hsource, -, hread⟩ := exists_of_optional hwhole hform f hf
    exact Form.wholeState_of_isWhole hsource hread
  · rcases exists_of_defaulted hwhole hbindings with rfl | ⟨list, hlist, hread⟩
    · cases hb
    · obtain ⟨j, rfl, hitems⟩ := hlist.of_toList? hread
      obtain ⟨source, hsource, hbinding⟩ := hitems b hb
      exact ih j (by omega) hsource hbinding

theorem BindingPackage.wholeState_of_isWhole {p : BindingPackage} (hd : IsWhole n d)
    (h : ofDatum? d = some p) : p.WholeState := by
  simp only [ofDatum?, Option.bind_eq_bind, Option.bind_eq_some_iff, Option.some.injEq] at h
  obtain ⟨ms, hms, _, -, _, -, _, -, _, -, _, -, bindings, hbindings, rfl⟩ := h
  obtain ⟨k, rfl, hwhole⟩ := hd.of_members? hms
  obtain ⟨list, hlist, hread⟩ := exists_of_required hwhole hbindings
  obtain ⟨j, rfl, hitems⟩ := hlist.of_toList? hread
  refine Binding.allWholeState_iff.mpr fun b hb => ?_
  obtain ⟨source, hsource, hbinding⟩ := hitems b hb
  exact Binding.wholeState_of_isWhole hsource hbinding

theorem CallRequest.wholeState_of_isWhole {r : CallRequest} (hd : IsWhole n d)
    (h : ofDatum? d = some r) : r.WholeState := by
  simp only [ofDatum?, Option.bind_eq_bind, Option.bind_eq_some_iff, Option.some.injEq] at h
  obtain ⟨ms, hms, call, hcall, _, -, _, -, _, -, _, -, _, -, rfl⟩ := h
  obtain ⟨k, rfl, hwhole⟩ := hd.of_members? hms
  obtain ⟨source, hsource, hread⟩ := exists_of_required hwhole hcall
  exact Call.wholeState_of_isWhole hsource hread

theorem CallResponse.wholeState_of_isWhole {r : CallResponse} (hd : IsWhole n d)
    (h : ofDatum? d = some r) : r.WholeState := by
  obtain ⟨⟨kind, rest⟩, htagged, hrest⟩ := Option.bind_eq_some_iff.mp h
  have hwhole := hd.of_tagged? htagged
  dsimp only at hrest
  split at hrest
  · simp only [Option.bind_eq_bind, Option.bind_eq_some_iff, Option.some.injEq] at hrest
    obtain ⟨ms, hms, note, -, data, hdata, rfl⟩ := hrest
    obtain ⟨k, rfl, hmembers⟩ := hwhole.of_members? hms
    exact noFloat_of_optional hmembers hdata
  · simp only [Option.bind_eq_bind, Option.bind_eq_some_iff, Option.some.injEq] at hrest
    obtain ⟨ms, hms, f, hform, rfl⟩ := hrest
    obtain ⟨k, rfl, hmembers⟩ := hwhole.of_members? hms
    obtain ⟨source, hsource, hread⟩ := exists_of_required hmembers hform
    exact Form.wholeState_of_isWhole hsource hread
  · simp only [Option.bind_eq_bind, Option.bind_eq_some_iff, Option.some.injEq] at hrest
    obtain ⟨_, -, _, -, rfl⟩ := hrest
    trivial
  · simp only [Option.bind_eq_bind, Option.bind_eq_some_iff, Option.some.injEq] at hrest
    obtain ⟨_, -, _, -, rfl⟩ := hrest
    trivial
  · cases hrest

/-- The numbers of a text are whole numbers of sixty-four bits. -/
def Json.HasWholeNumbers (text : String) : Prop := ∀ d ∈ Json.parse text, d.hasFloat = false

/-- Nothing that is decoded from a text with whole numbers carries a floating-point number along. -/
theorem wholeState_of_hasWholeNumbers {text : String} (h : Json.HasWholeNumbers text) :
    (∀ b, (Json.parse text).bind Binding.ofDatum? = some b → b.WholeState) ∧
    (∀ f, (Json.parse text).bind Form.ofDatum? = some f → f.WholeState) ∧
    (∀ c, (Json.parse text).bind Call.ofDatum? = some c → c.WholeState) ∧
    (∀ r, (Json.parse text).bind CallRequest.ofDatum? = some r → r.WholeState) ∧
    (∀ r, (Json.parse text).bind CallResponse.ofDatum? = some r → r.WholeState) ∧
    ∀ p, (Json.parse text).bind BindingPackage.ofDatum? = some p → p.WholeState := by
  have hwhole {α : Type} {read : Datum → Option α} {x : α}
      (hx : (Json.parse text).bind read = some x) : ∃ d, IsWhole Json.maxDepth d ∧ read d = some x := by
    obtain ⟨d, hd, hread⟩ := Option.bind_eq_some_iff.mp hx
    exact ⟨d, ⟨Json.nested_of_parse hd, h d hd⟩, hread⟩
  refine ⟨fun b hb => ?_, fun f hf => ?_, fun c hc => ?_, fun r hr => ?_, fun r hr => ?_,
    fun p hp => ?_⟩
  · obtain ⟨d, hd, hread⟩ := hwhole hb
    exact Binding.wholeState_of_isWhole hd hread
  · obtain ⟨d, hd, hread⟩ := hwhole hf
    exact Form.wholeState_of_isWhole hd hread
  · obtain ⟨d, hd, hread⟩ := hwhole hc
    exact Call.wholeState_of_isWhole hd hread
  · obtain ⟨d, hd, hread⟩ := hwhole hr
    exact CallRequest.wholeState_of_isWhole hd hread
  · obtain ⟨d, hd, hread⟩ := hwhole hr
    exact CallResponse.wholeState_of_isWhole hd hread
  · obtain ⟨d, hd, hread⟩ := hwhole hp
    exact BindingPackage.wholeState_of_isWhole hd hread

end SlashCommand
