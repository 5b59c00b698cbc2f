import SlashCommand.Proofs.Wire.Forms
import SlashCommand.Wire.Call

/-!
# Requests and answers, read and written again

A typed value does not say which kind it is of, so it is read as the first kind that fits
(`TypedValue.ofDatum?_toDatum`).  A list of two or three texts is written like an option, and the
empty list of options like the empty list of texts; all other values are read as what they are.
Values that were read are of the first kind that fits already.
-/

namespace SlashCommand

open Datum

variable {n : Nat}

namespace CallContext

theorem toDatum_eq (c : CallContext) : c.toDatum = .record (present
    [("app_id", some (.text c.appId)), ("location", some (.text c.location)),
      ("channel_id", c.channelId.map .text), ("team_id", c.teamId.map .text),
      ("post_id", c.postId.map .text), ("root_id", c.rootId.map .text)]) := by
  simp only [toDatum, member_eq_present, member?_eq_present, present_append, List.cons_append,
    List.nil_append]

theorem restored (c : CallContext) : Restored (n + 1) ofDatum? toDatum c := by
  have happ := kept_text (n := n) c.appId
  have hlocation := kept_text (n := n) c.location
  have hchannel := kept_text? (n := n) c.channelId
  have hteam := kept_text? (n := n) c.teamId
  have hpost := kept_text? (n := n) c.postId
  have hroot := kept_text? (n := n) c.rootId
  rw [Restored, toDatum_eq]
  refine ⟨nested_present ?_, ?_⟩
  · simp only [List.forall_mem_cons]
    exact ⟨happ.1, hlocation.1, hchannel.1, hteam.1, hpost.1, hroot.1, List.forall_mem_nil _⟩
  · simp [ofDatum?, happ.2, hlocation.2, hchannel.2, hteam.2, hpost.2, hroot.2]

end CallContext

/-! ## Typed values -/

namespace TypedValue

/-- The value of the first kind that a value can be read as. -/
def reread : TypedValue → TypedValue
  | texts [label, value] => option ⟨label, value, none⟩
  | texts [label, value, icon] => option ⟨label, value, some icon⟩
  | options [] => texts []
  | v => v

/-- No value of an earlier kind is written in the same way. -/
def IsFirstKind : TypedValue → Prop
  | texts values => values.length ≠ 2 ∧ values.length ≠ 3
  | options values => values ≠ []
  | _ => True

instance : DecidablePred IsFirstKind
  | .texts values => inferInstanceAs (Decidable (values.length ≠ 2 ∧ values.length ≠ 3))
  | .options values => inferInstanceAs (Decidable (values ≠ []))
  | .text _ | .bool _ | .option _ => inferInstanceAs (Decidable True)

theorem reread_eq_iff {v : TypedValue} : v.reread = v ↔ v.IsFirstKind := by
  cases v with
  | texts values =>
    rcases values with _ | ⟨a, _ | ⟨b, _ | ⟨c, _ | ⟨d, values⟩⟩⟩⟩ <;> simp [reread, IsFirstKind]
  | options values => cases values <;> simp [reread, IsFirstKind]
  | _ => exact iff_of_true rfl trivial

theorem nested_toDatum (v : TypedValue) : Nested IsWritten (n + 2) v.toDatum := by
  cases v with
  | option o => exact o.restored.1
  | texts values => exact (restored_list fun s (_ : s ∈ values) => restored_text s).1
  | options values => exact (restored_list fun o (_ : o ∈ values) => o.restored).1
  | _ => exact .leaf trivial

/-- What cannot be a truth value or a text is read as one of the other kinds. -/
theorem ofDatum?_of_settled {d : Datum} (h : d.settled? = some d) (hbool : ∀ b, d ≠ .bool b)
    (htext : ∀ s, d ≠ .text s) :
    ofDatum? d = ((SelectOption.ofDatum? d).map .option).or ((d.toTexts?.map .texts).or
      ((d.toList? SelectOption.ofDatum?).map .options)) := by
  rw [ofDatum?, h, Option.bind_eq_bind, Option.bind_some]
  split
  · exact absurd rfl (hbool _)
  · exact absurd rfl (htext _)
  · rfl

/-- A list of texts is an option if there are two or three. -/
theorem option_or_texts (values : List String) :
    ((SelectOption.ofDatum? (ofTexts values)).map option).or (some (texts values)) =
      some (texts values).reread := by
  rcases values with _ | ⟨a, _ | ⟨b, _ | ⟨c, _ | ⟨d, values⟩⟩⟩⟩
  · rfl
  · rfl
  · rfl
  · rfl
  · have hlong : members? ["label", "value", "icon_data"] (ofTexts (a :: b :: c :: d :: values)) =
        none := by
      rw [ofTexts, members?, if_neg]
      simp only [List.map_cons, List.length_cons, List.length_nil]
      omega
    rw [SelectOption.ofDatum?, hlong]
    rfl

/-- A list that begins with a record is not an option. -/
theorem optionOfDatum?_cons (ms : List (String × Datum)) (items : List Datum) :
    SelectOption.ofDatum? (.list (.record ms :: items)) = none := by
  rw [SelectOption.ofDatum?]
  cases hmembers : members? ["label", "value", "icon_data"] (.list (.record ms :: items)) with
  | none => rfl
  | some ms' =>
    simp only [members?, Option.ite_none_right_eq_some, Option.some.injEq] at hmembers
    obtain ⟨-, rfl⟩ := hmembers
    rfl

/-- A typed value is read as the first kind that is written in the same way. -/
theorem ofDatum?_toDatum (v : TypedValue) : ofDatum? v.toDatum = some v.reread := by
  have hsettled := (v.nested_toDatum (n := 0)).settled?_self
  cases v with
  | bool b => rfl
  | text s => rfl
  | option o =>
    rw [ofDatum?_of_settled hsettled nofun nofun, toDatum, (o.restored (n := 0)).2]
    rfl
  | texts values =>
    have htexts : toTexts? (ofTexts values) = some values := mapM_map fun s _ => rfl
    rw [ofDatum?_of_settled hsettled nofun nofun, toDatum, htexts, Option.map_some, Option.some_or,
      option_or_texts]
  | options values =>
    rw [ofDatum?_of_settled hsettled nofun nofun]
    cases values with
    | nil => rfl
    | cons o values =>
      have hoptions : toList? SelectOption.ofDatum? (options (o :: values)).toDatum =
          some (o :: values) := toList?_map fun o _ => (o.restored (n := 0)).2
      have hnone : SelectOption.ofDatum? (options (o :: values)).toDatum = none :=
        optionOfDatum?_cons _ _
      have htexts : (options (o :: values)).toDatum.toTexts? = none := rfl
      rw [hoptions, hnone, htexts]
      rfl

/-- Texts of a JSON text are not written in another way. -/
theorem toDatum_of_toTexts? {d : Datum} {values : List String} (hd : Nested IsRead n d)
    (h : d.toTexts? = some values) : (texts values).toDatum = d := by
  obtain ⟨items, hitems, htexts⟩ := Option.bind_eq_some_iff.mp h
  cases d with
  | list _ =>
    cases hitems
    obtain ⟨k, -, hlevels⟩ := hd.of_list
    have hmap : items = values.map .text := eq_map_of_mapM htexts fun item hitem s hs => by
      cases item with
      | text s' => exact congrArg Datum.text (Option.some.inj hs)
      | plain s' => cases hlevels _ hitem with
        | leaf h => exact absurd h (by rintro (h | h) <;> cases h)
      | tagged tag quoted s' => cases hlevels _ hitem with
        | leaf h => exact absurd h (by rintro (h | h) <;> cases h)
      | _ => cases hs
    rw [hmap]
    rfl
  | _ => cases hitems

/-- A value that was read is of the first kind that is written in the same way. -/
theorem restored_of_occurs {v : TypedValue} (h : Occurs n ofDatum? v) :
    Restored n ofDatum? toDatum v := by
  obtain ⟨d, hd, hread⟩ := h
  obtain ⟨d', hsettled, hvalue⟩ := Option.bind_eq_some_iff.mp hread
  obtain ⟨rfl, -⟩ := hd.settled?_eq_some_iff.mp hsettled
  split at hvalue
  · cases hvalue
    exact ⟨.leaf trivial, rfl⟩
  · cases hvalue
    exact ⟨.leaf trivial, rfl⟩
  · rcases Option.or_eq_some_iff.mp hvalue with hoption | ⟨-, hvalue⟩
    · obtain ⟨o, ho, rfl⟩ := Option.map_eq_some_iff.mp hoption
      have hlevels := (SelectOption.restored_of_occurs ⟨d', hd, ho⟩).1
      exact ⟨hlevels, ofDatum?_toDatum (option o)⟩
    rcases Option.or_eq_some_iff.mp hvalue with htexts | ⟨htexts, hoptions⟩
    · obtain ⟨values, hvalues, rfl⟩ := Option.map_eq_some_iff.mp htexts
      obtain ⟨k, rfl, -⟩ := occurs_of_toList? ⟨_, hd, hvalues⟩
      refine ⟨(restored_list fun s (_ : s ∈ values) => restored_text s).1, ?_⟩
      rw [toDatum_of_toTexts? hd hvalues, hread]
    · obtain ⟨values, hvalues, rfl⟩ := Option.map_eq_some_iff.mp hoptions
      obtain ⟨k, rfl, hoccurs⟩ := occurs_of_toList? ⟨_, hd, hvalues⟩
      refine ⟨(restored_list fun o ho => SelectOption.restored_of_occurs (hoccurs o ho)).1, ?_⟩
      have hfirst : (options values).IsFirstKind := by
        rintro rfl
        obtain ⟨items, hitems, hnil⟩ := Option.bind_eq_some_iff.mp hvalues
        cases d' with
        | list _ =>
          cases hitems
          cases items with
          | nil => cases htexts
          | cons item items =>
            rw [List.mapM_cons] at hnil
            obtain ⟨o, -, hrest⟩ := Option.bind_eq_some_iff.mp hnil
            obtain ⟨os, -, hcons⟩ := Option.bind_eq_some_iff.mp hrest
            cases hcons
        | _ => cases hitems
      rw [ofDatum?_toDatum, reread_eq_iff.mpr hfirst]

end TypedValue

/-! ## Requests -/

namespace CallRequest

theorem toDatum_eq (r : CallRequest) : r.toDatum = .record (present
    [("call", some r.call.toDatum), ("context", some r.context.toDatum),
      ("values", some (ofMap TypedValue.toDatum r.values)), ("raw_command", r.rawCommand.map .text),
      ("selected_field", r.selectedField.map .text), ("query", r.query.map .text)]) := by
  simp only [toDatum, member_eq_present, member?_eq_present, present_append, List.cons_append,
    List.nil_append]

/-- A request is kept if its call is, up to what its values are read as. -/
theorem ofDatum?_toDatum {r : CallRequest}
    (hcall : Restored (n + 3) Call.ofDatum? Call.toDatum r.call) :
    Nested IsWritten (n + 4) r.toDatum ∧
      ofDatum? r.toDatum = some { r with values := r.values.map fun _ => TypedValue.reread } := by
  have hcall := kept_required hcall
  have hcontext := kept_required (n := n + 3) r.context.restored
  have hnested : Nested IsWritten (n + 3) (ofMap TypedValue.toDatum r.values) :=
    nested_ofMap fun _ v _ => v.nested_toDatum
  have hvalues : toMap? TypedValue.ofDatum? (ofMap TypedValue.toDatum r.values) =
      some (r.values.map fun _ => TypedValue.reread) :=
    toMap?_ofMap fun _ v _ => v.ofDatum?_toDatum
  have hraw := kept_text? (n := n + 3) r.rawCommand
  have hselected := kept_text? (n := n + 3) r.selectedField
  have hquery := kept_text? (n := n + 3) r.query
  rw [toDatum_eq]
  refine ⟨nested_present ?_, ?_⟩
  · simp only [List.forall_mem_cons]
    exact ⟨hcall.1, hcontext.1, fun d hd => by cases hd; exact hnested, hraw.1, hselected.1,
      hquery.1, List.forall_mem_nil _⟩
  · simp [ofDatum?, hcall.2, hcontext.2, orDefault, hvalues, hraw.2, hselected.2, hquery.2]

/-- No floating-point number is in what the call of a request carries along. -/
def WholeState (r : CallRequest) : Prop := r.call.WholeState

theorem restored_of_occurs {r : CallRequest} (h : Occurs (n + 4) ofDatum? r)
    (hwhole : r.WholeState) : Restored (n + 4) ofDatum? toDatum r := by
  obtain ⟨d, hd, hread⟩ := h
  simp only [ofDatum?, Option.bind_eq_bind, Option.bind_eq_some_iff, Option.some.injEq] at hread
  obtain ⟨ms, hms, call, hcall, context, -, values, hvalues, rawCommand, -, selectedField, -,
    query, -, rfl⟩ := hread
  obtain ⟨_, heq, hlevels⟩ := levels_of_members? hd hms
  cases heq
  have hcall := Call.restored_of_occurs (exists_of_required hlevels hcall) hwhole
  obtain ⟨hnested, hreread⟩ := ofDatum?_toDatum (r := ⟨call, context, values, rawCommand,
    selectedField, query⟩) hcall
  refine ⟨hnested, hreread.trans ?_⟩
  have hsame : values.map (fun _ => TypedValue.reread) = values := by
    refine Std.ExtTreeMap.ext_getElem? fun key => ?_
    rw [Std.ExtTreeMap.getElem?_map]
    cases hvalue : values[key]? with
    | none => rfl
    | some v =>
      rcases exists_of_defaulted hlevels hvalues with rfl | hoccurs
      · simp at hvalue
      · obtain ⟨k, -, hvalues⟩ := occurs_of_toMap? hoccurs
        have hv := (TypedValue.restored_of_occurs (hvalues key v hvalue)).2
        rw [TypedValue.ofDatum?_toDatum] at hv
        exact hv
  rw [hsame]

end CallRequest

/-! ## Answers -/

namespace CallResponse

/-- No floating-point number is in the data of an answer or in what the call of its form carries
along. -/
def WholeState : CallResponse → Prop
  | ok _ data => ∀ d ∈ data, d.hasFloat = false
  | form f => f.WholeState
  | _ => True

/-- The members of an answer behind its kind. -/
def members : CallResponse → List (String × Option Datum)
  | ok note data => [("text", note.map .text), ("data", data)]
  | form f => [("form", some f.toDatum)]
  | navigate url => [("navigate_to_url", some (.text url))]
  | error note => [("text", note.map .text)]

theorem toDatum_eq (r : CallResponse) :
    r.toDatum = .record (present (("type", some (.text r.typeName)) :: r.members)) := by
  cases r <;>
    simp only [toDatum, members, member_eq_present, member?_eq_present, present_append,
      List.cons_append, List.nil_append]

theorem members_ne_type (r : CallResponse) : ∀ m ∈ r.members, m.1 ≠ "type" := by
  cases r <;> simp [members]

/-- An answer is kept if what belongs to its kind is. -/
theorem restored_of_members {r : CallResponse}
    (hmembers : ∀ m ∈ r.members, ∀ d ∈ m.2, Nested IsWritten n d)
    (hread : ∀ d : Datum, d.tagged? "type" = some (r.typeName, record (present r.members)) →
      ofDatum? d = some r) : Restored (n + 1) ofDatum? toDatum r := by
  rw [Restored, toDatum_eq]
  refine ⟨nested_present (List.forall_mem_cons.mpr ⟨fun d hd => ?_, hmembers⟩), hread _ ?_⟩
  · cases hd
    exact .leaf trivial
  · exact tagged?_present r.members_ne_type hmembers

theorem restored_of_occurs {r : CallResponse} (h : Occurs (n + 3) ofDatum? r)
    (hwhole : r.WholeState) : Restored (n + 3) ofDatum? toDatum r := by
  obtain ⟨d, hd, hread⟩ := h
  obtain ⟨⟨kind, rest⟩, htagged, hrest⟩ := Option.bind_eq_some_iff.mp hread
  have hnested := nested_of_tagged? hd htagged
  dsimp only at hrest
  split at hrest
  · simp only [Option.bind_eq_bind, Option.bind_eq_some_iff, Option.some.injEq] at hrest
    obtain ⟨ms, hms, note, -, data, hdata, rfl⟩ := hrest
    obtain ⟨_, heq, hlevels⟩ := levels_of_members? hnested hms
    cases heq
    have hnote := kept_text? (n := n + 2) note
    have hdata := kept_verbatim hlevels hdata hwhole
    refine restored_of_members ?_ fun d hd => ?_
    · simp only [members, List.forall_mem_cons]
      exact ⟨hnote.1, hdata.1, List.forall_mem_nil _⟩
    · simp [ofDatum?, hd, typeName, members, hnote.2, hdata.2]
  · simp only [Option.bind_eq_bind, Option.bind_eq_some_iff, Option.some.injEq] at hrest
    obtain ⟨ms, hms, f, hform, rfl⟩ := hrest
    obtain ⟨_, heq, hlevels⟩ := levels_of_members? hnested hms
    cases heq
    have hform := kept_required
      (Form.restored_of_occurs_ofBuffered? (exists_of_required hlevels hform) hwhole (by omega))
    refine restored_of_members ?_ fun d hd => ?_
    · simp only [members, List.forall_mem_cons]
      exact ⟨hform.1, List.forall_mem_nil _⟩
    · simp [ofDatum?, hd, typeName, members, hform.2]
  · simp only [Option.bind_eq_bind, Option.bind_eq_some_iff, Option.some.injEq] at hrest
    obtain ⟨ms, hms, url, -, rfl⟩ := hrest
    have hurl := kept_text (n := n + 2) url
    refine restored_of_members ?_ fun d hd => ?_
    · simp only [members, List.forall_mem_cons]
      exact ⟨hurl.1, List.forall_mem_nil _⟩
    · simp [ofDatum?, hd, typeName, members, hurl.2]
  · simp only [Option.bind_eq_bind, Option.bind_eq_some_iff, Option.some.injEq] at hrest
    obtain ⟨ms, hms, note, -, rfl⟩ := hrest
    have hnote := kept_text? (n := n + 2) note
    refine restored_of_members ?_ fun d hd => ?_
    · simp only [members, List.forall_mem_cons]
      exact ⟨hnote.1, List.forall_mem_nil _⟩
    · simp [ofDatum?, hd, typeName, members, hnote.2]
  · cases hrest

end CallResponse

end SlashCommand
