import SlashCommand.Proofs.Wire.Members
import SlashCommand.Wire.Binding

/-!
# Forms and bindings, read and written again
-/

namespace SlashCommand

open Datum

variable {n : Nat}

namespace SelectOption

theorem toDatum_eq (o : SelectOption) : o.toDatum = .record (present
    [("label", some (.text o.label)), ("value", some (.text o.value)),
      ("icon_data", o.iconData.map .text)]) := by
  simp only [toDatum, member_eq_present, member?_eq_present, present_append, List.cons_append,
    List.nil_append]

theorem restored (o : SelectOption) : Restored (n + 1) ofDatum? toDatum o := by
  have hlabel := kept_text (n := n) o.label
  have hvalue := kept_text (n := n) o.value
  have hicon := kept_text? (n := n) o.iconData
  rw [Restored, toDatum_eq]
  refine ⟨nested_present ?_, ?_⟩
  · simp only [List.forall_mem_cons]
    exact ⟨hlabel.1, hvalue.1, hicon.1, List.forall_mem_nil _⟩
  · simp [ofDatum?, hlabel.2, hvalue.2, hicon.2]

theorem restored_of_occurs {o : SelectOption} (h : Occurs n ofDatum? o) :
    Restored n ofDatum? toDatum o := by
  obtain ⟨d, hd, hread⟩ := h
  obtain ⟨ms, hms, -⟩ := Option.bind_eq_some_iff.mp hread
  obtain ⟨k, rfl, -⟩ := levels_of_members? hd hms
  exact o.restored

end SelectOption

/-! ## Fields -/

theorem FieldType.restored (t : FieldType) : Restored n ofDatum? toDatum t := by
  cases t <;> exact ⟨.leaf trivial, rfl⟩

theorem FieldType.restored_ofBuffered? (t : FieldType) : Restored n ofBuffered? toDatum t := by
  cases t <;> exact ⟨.leaf trivial, rfl⟩

namespace Value

theorem restored_scalar (token : String) : Restored n ofDatum? toDatum (.scalar token) :=
  ⟨.leaf trivial, rfl⟩

/-- A list takes a level. -/
theorem restored_list (tokens : List String) : Restored (n + 1) ofDatum? toDatum (.list tokens) := by
  have hlist : Restored (n + 1) (toList? toText?) (fun ts => .list (ts.map .text)) tokens :=
    Datum.restored_list fun s _ => restored_text s
  refine ⟨hlist.1, ?_⟩
  have htexts : toTexts? (ofTexts tokens) = some tokens := hlist.2
  have hsettled : (ofTexts tokens).settled? = some (ofTexts tokens) :=
    Nested.settled?_self hlist.1
  rw [ofDatum?, toDatum, hsettled]
  exact congrArg (Option.map Value.list) htexts

/-- A list is read from a list, and so it has room for its level. -/
theorem restored_of_occurs {v : Value} (h : Occurs n ofDatum? v) :
    Restored n ofDatum? toDatum v := by
  obtain ⟨d, hd, hread⟩ := h
  obtain ⟨d', hsettled, hvalue⟩ := Option.bind_eq_some_iff.mp hread
  obtain ⟨rfl, -⟩ := hd.settled?_eq_some_iff.mp hsettled
  split at hvalue
  · cases hvalue
    exact restored_scalar _
  · obtain ⟨tokens, htokens, rfl⟩ := Option.map_eq_some_iff.mp hvalue
    obtain ⟨k, rfl, -⟩ := occurs_of_toList? ⟨_, hd, htokens⟩
    exact restored_list tokens

end Value

namespace Field

theorem toDatum_eq (f : Field) : f.toDatum = .record (present
    [("name", some (.text f.name)), ("type", some f.type.toDatum), ("label", f.label.map .text),
      ("hint", f.hint.map .text), ("description", f.description.map .text),
      ("is_required", some (.bool f.isRequired)), ("readonly", some (.bool f.readonly)),
      ("position", some (ofInt f.position)), ("multiselect", some (.bool f.multiselect)),
      ("options", someList (f.options.map SelectOption.toDatum)),
      ("value", f.defaultValue.map Value.toDatum)]) := by
  simp only [toDatum, member_eq_present, member?_eq_present, memberList_eq_present, present_append,
    List.cons_append, List.nil_append]

/-- A field is restored however its type is read, if types are. -/
theorem restored_readWith {readType : Datum → Option FieldType} {f : Field}
    (htypes : ∀ (k : Nat) (t : FieldType), Restored k readType FieldType.toDatum t)
    (h : Occurs n (readWith readType) f) : Restored n (readWith readType) toDatum f := by
  obtain ⟨d, hd, hread⟩ := h
  simp only [readWith, Option.bind_eq_bind, Option.bind_eq_some_iff, Option.some.injEq] at hread
  obtain ⟨ms, hms, name, -, type, -, label, -, hint, -, description, -, isRequired, -, readonly, -,
    position, hposition, multiselect, -, options, hoptions, defaultValue, hdefault, rfl⟩ := hread
  obtain ⟨k, rfl, hlevels⟩ := levels_of_members? hd hms
  have hname := kept_text (n := k) name
  have htype : Kept k (orDefault readType .text) (some type.toDatum) type :=
    kept_orDefault (htypes k type)
  have hlabel := kept_text? (n := k) label
  have hhint := kept_text? (n := k) hint
  have hdescription := kept_text? (n := k) description
  have hrequired := kept_bool (n := k) isRequired false
  have hreadonly := kept_bool (n := k) readonly false
  have hposition : Kept k (orDefault (toInt? (-Int.pow 2 31) (Int.pow 2 31 - 1)) 0)
      (some (ofInt position)) position := by
    refine kept_orDefault (restored_ofInt ?_ ⟨by decide, by decide⟩ ⟨by decide, by decide⟩)
    rcases exists_of_defaulted hlevels hposition with rfl | ⟨d, -, hread⟩
    · decide
    · exact bounds_of_toInt? hread
  have hmultiselect := kept_bool (n := k) multiselect false
  have hoptions := kept_someList (exists_of_defaulted hlevels hoptions)
    fun _ _ _ _ ho => SelectOption.restored_of_occurs ho
  have hdefault : Kept k (optionally Value.ofDatum?) (defaultValue.map Value.toDatum) defaultValue :=
    kept_optionally (fun v hv => Value.restored_of_occurs (occurs_of_optional hlevels hdefault v hv))
      fun v _ => by cases v <;> rfl
  rw [Restored, toDatum_eq]
  refine ⟨nested_present ?_, ?_⟩
  · simp only [List.forall_mem_cons]
    exact ⟨hname.1, htype.1, hlabel.1, hhint.1, hdescription.1, hrequired.1, hreadonly.1,
      hposition.1, hmultiselect.1, hoptions.1, hdefault.1, List.forall_mem_nil _⟩
  · -- the bounds of a position are left alone
    rw [readWith]
    obtain ⟨-, hposition⟩ := hposition
    generalize toInt? (-Int.pow 2 31) (Int.pow 2 31 - 1) = inBounds? at hposition ⊢
    simp [hname.2, htype.2, hlabel.2, hhint.2, hdescription.2, hrequired.2, hreadonly.2,
      hposition, hmultiselect.2, hoptions.2, hdefault.2]

theorem restored_of_occurs {f : Field} (h : Occurs n ofDatum? f) :
    Restored n ofDatum? toDatum f := restored_readWith (fun _ t => t.restored) h

theorem restored_of_occurs_ofBuffered? {f : Field} (h : Occurs n ofBuffered? f) :
    Restored n ofBuffered? toDatum f := restored_readWith (fun _ t => t.restored_ofBuffered?) h

end Field

/-! ## Calls and forms -/

/-- No floating-point number is in what is carried along. -/
def Call.WholeState (c : Call) : Prop := ∀ d ∈ c.state, d.hasFloat = false

/-- No floating-point number is in what the call of a form carries along. -/
def Form.WholeState (f : Form) : Prop := ∀ c ∈ f.call, c.WholeState

/-- What is carried along is neither nothing nor a plain or tagged scalar. -/
theorem Datum.isAbsent?_of_isResolved {d : Datum} (h : Nested IsResolved n d) (hne : d ≠ .null) :
    d.isAbsent? = some false := by
  cases h with
  | leaf h =>
    cases d with
    | null => exact absurd rfl hne
    | plain s => exact h.elim
    | tagged tag quoted s => exact h.elim
    | _ => rfl
  | list _ => rfl
  | record _ => rfl

/-- A value that is carried along is kept if there is no floating-point number in it. -/
theorem Datum.kept_verbatim {ms : List (String × Datum)} {key : String} {state : Option Datum}
    (hms : ∀ m ∈ ms, Nested IsRead n m.2) (h : optional ms key verbatim? = some state)
    (hwhole : ∀ d ∈ state, d.hasFloat = false) : Kept n (optionally verbatim?) state state := by
  have hstate (d : Datum) (hd : d ∈ state) :
      Nested IsResolved n d ∧ d ≠ .null ∧ d.verbatim? = some d := by
    obtain ⟨source, hsource, hne, hread⟩ := exists_of_optional hms h d hd
    obtain ⟨hnested, hself⟩ := hsource.verbatim?_self hread
    exact ⟨hnested, hsource.ne_null_of_verbatim? hread hne, hself⟩
  have hkept : Kept n (optionally verbatim?) (state.map id) state :=
    kept_optionally
      (fun d hd => ⟨(hstate d hd).1.isWritten (hwhole d hd), (hstate d hd).2.2⟩)
      fun d hd => isAbsent?_of_isResolved (hstate d hd).1 (hstate d hd).2.1
  rwa [Option.map_id] at hkept

namespace Call

theorem toDatum_eq (c : Call) : c.toDatum = .record (present
    [("path", some (.text c.path)), ("state", c.state)]) := by
  simp only [toDatum, member_eq_present, member?_eq_present, present_append, List.cons_append,
    List.nil_append]

theorem restored_of_occurs {c : Call} (h : Occurs n ofDatum? c) (hwhole : c.WholeState) :
    Restored n ofDatum? toDatum c := by
  obtain ⟨d, hd, hread⟩ := h
  simp only [ofDatum?, Option.bind_eq_bind, Option.bind_eq_some_iff, Option.some.injEq] at hread
  obtain ⟨ms, hms, path, -, state, hstate, rfl⟩ := hread
  obtain ⟨k, rfl, hlevels⟩ := levels_of_members? hd hms
  have hpath := kept_text (n := k) path
  have hstate := kept_verbatim hlevels hstate hwhole
  rw [Restored, toDatum_eq]
  refine ⟨nested_present ?_, ?_⟩
  · simp only [List.forall_mem_cons]
    exact ⟨hpath.1, hstate.1, List.forall_mem_nil _⟩
  · simp [ofDatum?, hpath.2, hstate.2]

/-- A call that carries nothing along is kept. -/
theorem restored_of_state_eq_none {c : Call} (h : c.state = none) :
    Restored (n + 1) ofDatum? toDatum c := by
  obtain ⟨path, _⟩ := c
  obtain rfl : _ = none := h
  have hpath := kept_text (n := n) path
  rw [Restored, toDatum_eq]
  refine ⟨nested_present ?_, ?_⟩
  · simp only [List.forall_mem_cons]
    exact ⟨hpath.1, (by simp), List.forall_mem_nil _⟩
  · simp [ofDatum?, hpath.2, optionally]

/-- A call is kept as an optional member. -/
theorem kept_of_optional {ms : List (String × Datum)} {key : String} {call : Option Call}
    (hms : ∀ m ∈ ms, Nested IsRead n m.2) (h : optional ms key ofDatum? = some call)
    (hwhole : ∀ c ∈ call, c.WholeState) : Kept n (optionally ofDatum?) (call.map toDatum) call :=
  kept_optionally
    (fun c hc => restored_of_occurs (occurs_of_optional hms h c hc) (hwhole c hc)) fun _ _ => rfl

end Call

namespace Form

theorem toDatum_eq (f : Form) : f.toDatum = .record (present
    [("title", f.title.map .text), ("fields", some (.list (f.fields.map Field.toDatum))),
      ("call", f.call.map Call.toDatum)]) := by
  simp only [toDatum, member_eq_present, member?_eq_present, present_append, List.cons_append,
    List.nil_append]

/-- The list of fields is written also when there are none, which takes a level. -/
theorem restored_readWith {readField : Datum → Option Field} {f : Form}
    (hfields : ∀ (k : Nat) (field : Field), Occurs k readField field →
      Restored k readField Field.toDatum field)
    (h : Occurs n (readWith readField) f) (hwhole : f.WholeState) (hn : n ≠ 1) :
    Restored n (readWith readField) toDatum f := by
  obtain ⟨d, hd, hread⟩ := h
  simp only [readWith, Option.bind_eq_bind, Option.bind_eq_some_iff, Option.some.injEq] at hread
  obtain ⟨ms, hms, title, -, fields, hread, call, hcall, rfl⟩ := hread
  obtain ⟨k, rfl, hlevels⟩ := levels_of_members? hd hms
  obtain ⟨k, rfl⟩ : ∃ j, k = j + 1 := Nat.exists_eq_succ_of_ne_zero (by omega)
  have htitle := kept_text? (n := k + 1) title
  have hfields : Kept (k + 1) (orDefault (toList? readField) [])
      (some (.list (fields.map Field.toDatum))) fields := by
    refine kept_orDefault (restored_list fun f hf => ?_)
    rcases exists_of_defaulted hlevels hread with rfl | hoccurs
    · cases hf
    · obtain ⟨j, hj, hall⟩ := occurs_of_toList? hoccurs
      cases hj
      exact hfields k f (hall f hf)
  have hcall := Call.kept_of_optional hlevels hcall hwhole
  rw [Restored, toDatum_eq]
  refine ⟨nested_present ?_, ?_⟩
  · simp only [List.forall_mem_cons]
    exact ⟨htitle.1, hfields.1, hcall.1, List.forall_mem_nil _⟩
  · simp [readWith, htitle.2, hfields.2, hcall.2]

theorem restored_of_occurs {f : Form} (h : Occurs n ofDatum? f) (hwhole : f.WholeState)
    (hn : n ≠ 1) : Restored n ofDatum? toDatum f :=
  restored_readWith (fun _ _ => Field.restored_of_occurs) h hwhole hn

theorem restored_of_occurs_ofBuffered? {f : Form} (h : Occurs n ofBuffered? f)
    (hwhole : f.WholeState) (hn : n ≠ 1) : Restored n ofBuffered? toDatum f :=
  restored_readWith (fun _ _ => Field.restored_of_occurs_ofBuffered?) h hwhole hn

end Form

/-! ## Bindings -/

namespace Binding

mutual

/-- No floating-point number is in what a call in the tree carries along. -/
def WholeState : Binding → Prop
  | ⟨_, _, _, _, _, _, call, form, bindings⟩ =>
    (∀ c ∈ call, c.WholeState) ∧ (∀ f ∈ form, f.WholeState) ∧ AllWholeState bindings

/-- It is in none of several trees. -/
def AllWholeState : List Binding → Prop
  | [] => True
  | b :: bs => WholeState b ∧ AllWholeState bs

end

theorem toData_eq_map (bs : List Binding) : toData bs = bs.map toDatum := by
  induction bs with
  | nil => rfl
  | cons b bs ih => rw [toData, ih, List.map_cons]

theorem allWholeState_iff {bs : List Binding} : AllWholeState bs ↔ ∀ b ∈ bs, b.WholeState := by
  induction bs with
  | nil => exact iff_of_true trivial fun b hb => absurd hb List.not_mem_nil
  | cons b bs ih => rw [AllWholeState, ih, List.forall_mem_cons]

theorem toDatum_eq (b : Binding) : b.toDatum = .record (present
    [("app_id", some (.text b.appId)), ("label", some (.text b.label)),
      ("location", some (.text b.location)), ("icon", b.icon.map .text), ("hint", b.hint.map .text),
      ("description", b.description.map .text), ("call", b.call.map Call.toDatum),
      ("form", b.form.map Form.toDatum), ("bindings", someList (b.bindings.map toDatum))]) := by
  cases b
  simp only [toDatum, member_eq_present, member?_eq_present, memberList_eq_present, present_append,
    List.cons_append, List.nil_append, toData_eq_map]

/-- Reading a binding, member by member. -/
theorem ofDatum?_eq (d : Datum) : ofDatum? d = (do
    let ms ← d.members? keys
    let appId ← defaulted ms "app_id" toText? ""
    let label ← required ms "label" toText?
    let location ← defaulted ms "location" toText? ""
    let icon ← optional ms "icon" toText?
    let hint ← optional ms "hint" toText?
    let description ← optional ms "description" toText?
    let call ← optional ms "call" Call.ofDatum?
    let form ← optional ms "form" Form.ofDatum?
    let bindings ← defaulted ms "bindings" listOfDatum? []
    some ⟨appId, label, location, icon, hint, description, call, form, bindings⟩) := by
  rw [ofDatum?]
  split
  · next h => rw [h]; rfl
  · next ms h =>
    have hchildren (items : List Datum) :
        items.attach.mapM (fun child => ofDatum? child.1) = items.mapM ofDatum? := by
      rw [List.mapM_subtype fun _ _ => rfl, List.unattach_attach]
    have hdefault : defaulted ms "bindings" listOfDatum? [] =
        orDefault listOfDatum? [] (Datum.find? "bindings" ms) := defaulted_eq
    simp only [h, Option.bind_eq_bind, Option.bind_some, hdefault]
    split
    · next hfind => simp only [hfind, orDefault, Option.bind_some]
    · next children hfind =>
      have hlist : orDefault listOfDatum? [] (some children) =
          children.items?.bind fun items => items.mapM ofDatum? := rfl
      simp only [hfind, hlist]
      split
      · next hitems => simp only [hitems, Option.bind_none]
      · next items hitems =>
        simp only [hitems, Option.bind_some, hchildren]

/-- A list of trees starts two levels below the tree around it, and so all trees start at the levels
of one parity.  The list of the fields of a form is at such a level again, and this is why it has room
also where it was not there when the form was read. -/
theorem restored_of_occurs {b : Binding} {k : Nat} (h : Occurs (2 * k + 1) ofDatum? b)
    (hwhole : b.WholeState) : Restored (2 * k + 1) ofDatum? toDatum b := by
  induction k using Nat.strongRecOn generalizing b with
  | ind k ih =>
  obtain ⟨d, hd, hread⟩ := h
  rw [ofDatum?_eq] at hread
  simp only [Option.bind_eq_bind, Option.bind_eq_some_iff, Option.some.injEq] at hread
  obtain ⟨ms, hms, appId, -, label, -, location, -, icon, -, hint, -, description, -, call, hcall,
    form, hform, bindings, hbindings, rfl⟩ := hread
  obtain ⟨hcallWhole, hformWhole, hbelow⟩ := hwhole
  obtain ⟨_, heq, hlevels⟩ := levels_of_members? hd hms
  cases heq
  have hforms : Kept (2 * k) (optionally Form.ofDatum?) (form.map Form.toDatum) form :=
    kept_optionally
      (fun f hf => Form.restored_of_occurs (occurs_of_optional hlevels hform f hf)
        (hformWhole f hf) (by omega))
      fun _ _ => rfl
  have hchildren : Kept (2 * k) (orDefault listOfDatum? []) (someList (bindings.map toDatum))
      bindings := by
    refine kept_someList (exists_of_defaulted hlevels hbindings) fun j b hj hb hoccurs => ?_
    obtain ⟨k', rfl⟩ : ∃ k', k = k' + 1 := Nat.exists_eq_succ_of_ne_zero (by omega)
    obtain rfl : j = 2 * k' + 1 := by omega
    exact ih k' (Nat.lt_succ_self k') hoccurs (allWholeState_iff.mp hbelow b hb)
  have happ := kept_text_orDefault (n := 2 * k) appId ""
  have hlabel := kept_text (n := 2 * k) label
  have hlocation := kept_text_orDefault (n := 2 * k) location ""
  have hicon := kept_text? (n := 2 * k) icon
  have hhint := kept_text? (n := 2 * k) hint
  have hdescription := kept_text? (n := 2 * k) description
  have hcall := Call.kept_of_optional hlevels hcall hcallWhole
  rw [Restored, toDatum_eq]
  refine ⟨nested_present ?_, ?_⟩
  · simp only [List.forall_mem_cons]
    exact ⟨happ.1, hlabel.1, hlocation.1, hicon.1, hhint.1, hdescription.1, hcall.1, hforms.1,
      hchildren.1, List.forall_mem_nil _⟩
  · rw [ofDatum?_eq]
    simp [keys, happ.2, hlabel.2, hlocation.2, hicon.2, hhint.2, hdescription.2, hcall.2, hforms.2,
      hchildren.2]

end Binding

/-! ## Packages -/

namespace BindingPackage

theorem toDatum_eq (p : BindingPackage) : p.toDatum = .record (present
    [("contract_version", p.contractVersion.map .text), ("version", some (.text p.version)),
      ("name", some ((p.name.map Datum.text).getD .null)),
      ("description", some ((p.description.map Datum.text).getD .null)),
      ("generated_at", some (.text p.generatedAt)),
      ("bindings", some (.list (p.bindings.map Binding.toDatum)))]) := by
  simp only [toDatum, member_eq_present, member?_eq_present, present_append, List.cons_append,
    List.nil_append, Binding.toData_eq_map]

/-- A text that is null when there is none. -/
theorem kept_textOrNull (o : Option String) :
    Kept n (optionally toText?) (some ((o.map Datum.text).getD .null)) o := by
  cases o with
  | none => exact ⟨fun d hd => by cases hd; exact .leaf trivial, rfl⟩
  | some s => exact kept_text? (some s)

end BindingPackage

/-- No floating-point number is in what a call in the tree of a package carries along. -/
def BindingPackage.WholeState (p : BindingPackage) : Prop := Binding.AllWholeState p.bindings

end SlashCommand
