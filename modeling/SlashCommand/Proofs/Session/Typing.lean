import SlashCommand.Proofs.Scan.Endings
import SlashCommand.Proofs.Scan.Shapes
import SlashCommand.Proofs.Session.Requests

/-!
# The types of the values in a request

A request has a value for each field that was typed or has a default, and for nothing else.  The
kind of the value should follow from the schema, that is, from the type of the field and from
whether it takes lists (`Field.kind`).

Expansion does not ask whether the field takes lists, it looks at the raw value
(`Expansion.kind_of_expandField`).  The scan stores lists only where they are taken
(`Scan.shaped_parseForm`), but a default is used as it was written, unless it is a single token for
a field that takes lists.  So a value is of another kind than its field exactly if the field takes
no lists, its default is one, and the default is used (`Session.compose_well_typed`).
-/

namespace SlashCommand

open Expansion (CanReturn)

namespace Value

theorem isList_asList (multiselect : Bool) (v : Value) :
    (v.asList multiselect).isList = (multiselect || v.isList) := by
  cases v with
  | list tokens => exact (Bool.or_true _).symm
  | scalar token => exact (isList_ofToken multiselect token).trans (Bool.or_false _).symm

end Value

/-! ## Kinds -/

/-- What a typed value can be. -/
inductive TypedKind where
  | bool
  | text
  | option
  | texts
  | options
deriving DecidableEq, Repr

/-- The kind of a typed value. -/
def TypedValue.kind : TypedValue → TypedKind
  | bool _ => .bool
  | text _ => .text
  | option _ => .option
  | texts _ => .texts
  | options _ => .options

namespace FieldType

/-- The kind of the values of a type, single ones or lists.  There are no lists of truth values. -/
def kind (type : FieldType) (list : Bool) : TypedKind :=
  match type with
  | bool => .bool
  | text => if list then .texts else .text
  | user | channel | staticSelect | dynamicSelect => if list then .options else .option

variable {type : FieldType}

/-- A value that is neither a text nor a truth value is an option. -/
theorem kind_of_ne (htext : type ≠ .text) (hbool : type ≠ .bool) (list : Bool) :
    type.kind list = if list then .options else .option := by
  cases type with
  | text => exact absurd rfl htext
  | bool => exact absurd rfl hbool
  | user | channel | staticSelect | dynamicSelect => rfl

/-- The kind tells lists from single values, where it has to. -/
theorem kind_eq_kind_iff {a b : Bool} (h : type = .bool → a = b) :
    type.kind a = type.kind b ↔ a = b := by
  cases type with
  | bool => exact iff_of_true rfl (h rfl)
  | text | user | channel | staticSelect | dynamicSelect =>
    clear h
    revert a b
    decide

end FieldType

/-! ## Fields -/

namespace Field

/-- The kind of value that the schema asks for. -/
def kind (f : Field) : TypedKind := f.type.kind f.multiselect

/-- The field takes no lists, but its default is one, and the default is used, because the field may
not be given or because nothing was given. -/
structure TakesListDefault (f : Field) (given : Option Value) : Prop where
  multiselect : f.multiselect = false
  default : ∃ v, f.defaultValue = some v ∧ v.isList = true
  used : f.readonly = true ∨ given = none

variable {f : Field} {given : Option Value} {v : Value}

/-- With its default put in, a field has a value if it was given one or has a default. -/
theorem isSome_completed_iff :
    (f.completed given).isSome = true ↔ given.isSome = true ∨ f.defaultValue.isSome = true := by
  rcases f.completed_cases given with ⟨hkept, -, hgiven⟩ | ⟨hkept, hnone⟩ |
    ⟨default, hdefault, hfilled, -⟩
  · rw [hkept]
    exact ⟨.inl, fun _ => hgiven⟩
  · rw [hkept, hnone]
    exact ⟨.inl, fun h => h.resolve_right nofun⟩
  · rw [hfilled, hdefault]
    exact iff_of_true rfl (.inr rfl)

/-- If what was given has the shape that the field asks for, so has what the field ends up with,
unless that is a list for a field that takes none. -/
theorem isList_of_completed (hgiven : ∀ u, given = some u → u.isList = f.multiselect)
    (h : f.completed given = some v) : v.isList = f.multiselect ↔ ¬ f.TakesListDefault given := by
  rcases f.completed_cases given with ⟨hkept, hreadonly, hsome⟩ | ⟨hkept, hnone⟩ |
    ⟨default, hdefault, hfilled, hused⟩
  · refine iff_of_true (hgiven v (hkept.symm.trans h)) fun hlist => ?_
    rcases hlist.used with hused | hused
    · rw [hreadonly] at hused
      cases hused
    · rw [hused] at hsome
      cases hsome
  · refine iff_of_true (hgiven v (hkept.symm.trans h)) fun hlist => ?_
    obtain ⟨_, hdefault, -⟩ := hlist.default
    rw [hnone] at hdefault
    cases hdefault
  · rw [← Option.some.inj (hfilled.symm.trans h), Value.isList_asList]
    constructor
    · rintro hshape ⟨hmulti, ⟨_, hlist, hisList⟩, -⟩
      obtain rfl := Option.some.inj (hdefault.symm.trans hlist)
      rw [hmulti, hisList] at hshape
      cases hshape
    · intro hnot
      cases hmulti : f.multiselect with
      | true => rfl
      | false =>
        exact Bool.eq_false_iff.mpr fun hlist => hnot ⟨hmulti, ⟨default, hdefault, hlist⟩, hused⟩

end Field

namespace Expansion

variable {σ : Type} {backend : Backend (StateM σ)} {teamId : Option String} {field : Field}
  {v : Value} {typed : TypedValue}

/-- The kind of a typed value comes from the type of its field and the shape of the raw value, which
is no list for a truth value. -/
theorem kind_of_expandField (h : CanReturn (expandField backend teamId field v) (.ok typed)) :
    typed.kind = field.type.kind v.isList ∧ (field.type = .bool → v.isList = false) := by
  cases expands_of_expandField h with
  | text htype | texts htype =>
    rw [htype]
    exact ⟨rfl, nofun⟩
  | bool value htype =>
    rw [htype]
    exact ⟨rfl, fun _ => rfl⟩
  | option htext hbool =>
    exact ⟨(FieldType.kind_of_ne htext hbool false).symm, fun htype => absurd htype hbool⟩
  | options htext hbool =>
    exact ⟨(FieldType.kind_of_ne htext hbool true).symm, fun htype => absurd htype hbool⟩

end Expansion

namespace Session

variable {σ : Type} {s : Session} {backend : Backend (StateM σ)} {command : String}
  {mode : ScanMode} {cache cache' : FormCache} {state state' : σ} {scan : Scan}
  {request : CallRequest}

/-- A command that is scanned stores values as the fields of its form ask. -/
theorem shaped_of_run_parse {form : Form}
    (h : ((s.parse backend command mode).run cache).run state = ((.ok scan, cache'), state'))
    (hform : scan.form = some form) (hdefect : form.defect? = none) : form.Shaped scan.values := by
  obtain ⟨start, hvalues, rfl⟩ := exists_of_run_parse h
  have hstart : start.form = some form := (Scan.sameForm_parseForm start mode).form.symm.trans hform
  refine Scan.shaped_parseForm hstart hdefect ?_ mode
  rw [hvalues]
  exact Form.Shaped.empty

/-! ## A default of another shape -/

/-- A field that takes single texts and has a list for a default. -/
def textField : Field where
  name := "text"
  defaultValue := some (.list ["todo"])

/-- A form with this field only. -/
def noteForm : Form where
  fields := [textField]

/-- A session with one command, which has this form. -/
def noteSession : Session where
  bindings := [{ label := "note", call := some { path := "/note" }, form := some noteForm }]

/-- A scan of the command up to its binding. -/
def noteScan (command : String) (state : ScanState) (cursor : Nat) (token : String)
    (tokenStart : Nat) : Scan where
  state := state
  text := command.toList
  cursor := cursor
  token := token
  tokenStart := tokenStart
  location := "/note"
  binding := noteSession.bindings.head?

/-- The scan of the command when its parameters are read. -/
def noteRead (command : String) (state : ScanState) (values : Values) : Scan :=
  { noteScan command state command.length "" command.length with form := some noteForm, values }

theorem matchCommand_note_bare :
    noteSession.matchCommand "/note" .execute = noteScan "/note" .command 5 "" 5 :=
  matchCommand_of_runWithin 30 (noteScan "/note" .command 5 "" 5)
    (s := noteSession) (List.cons_ne_nil _ _) rfl

theorem parse_note_bare : noteSession.parse (.offline (StateM Unit)) "/note" .execute =
    pure (.ok (noteRead "/note" .startParameter ∅)) :=
  parse_of_inline matchCommand_note_bare rfl (Scan.parseForm_of_runWithin 30 _ rfl rfl)

theorem matchCommand_note_text : noteSession.matchCommand "/note --text hi" .execute =
    noteScan "/note --text hi" .endCommand 12 "--text" 6 :=
  matchCommand_of_runWithin 30 (noteScan "/note --text hi" .endCommand 12 "--text" 6)
    (s := noteSession) (List.cons_ne_nil _ _) rfl

theorem parse_note_text : noteSession.parse (.offline (StateM Unit)) "/note --text hi" .execute =
    pure (.ok (noteRead "/note --text hi" (.value 0 .endBare)
      ((∅ : Values).insert "text" (.scalar "hi")))) :=
  parse_of_inline matchCommand_note_text rfl (Scan.parseForm_of_runWithin 30 _ rfl rfl)

/-- The default goes into the request as a list of texts, where the field asks for one text. -/
theorem compose_note_bare :
    Binding.treeDefect? noteSession.bindings = none ∧
    ∃ request,
      ((noteSession.compose (.offline (StateM Unit)) "/note").run .empty).run () =
        ((.ok request, .empty), ()) ∧
      request.values["text"]? = some (.texts ["todo"]) ∧ textField.kind = .text := by
  refine ⟨?_, ?_⟩
  · exact Binding.defectBelow?_cons_eq_none_iff.mpr
      ⟨by decide, by decide, Binding.defectBelow?_nil, Binding.defectBelow?_nil⟩
  · rw [compose_of_parse parse_note_bare]
    exact ⟨_, rfl, rfl, rfl⟩

/-! ## Well typed requests -/

/-- **Well typed requests.**  If a command is composed into a request with a form, then whatever the
backend and the cache are, the request has a value for each field that was typed or has a default,
and no other.  The value is of the kind that the schema of the field asks for exactly if the field
does not take a list for its default where it takes no lists. -/
theorem compose_well_typed
    (h : ((s.compose backend command).run cache).run state = ((.ok request, cache'), state')) :
    ∃ scan cache₁ state₁,
      ((s.parse backend command .execute).run cache).run state = ((.ok scan, cache₁), state₁) ∧
      ∀ form, scan.form = some form → form.defect? = none →
        (∀ name : String, name ∈ request.values ↔
          ∃ f ∈ form.fields, f.name = name ∧
            (name ∈ scan.values ∨ f.defaultValue.isSome = true)) ∧
        ∀ f ∈ form.fields, ∀ v, request.values[f.name]? = some v →
          (v.kind = f.kind ↔ ¬ f.TakesListDefault scan.values[f.name]?) := by
  obtain ⟨scan, cache₁, state₁, hparse, hfinish⟩ := exists_scan_of_run_compose h
  refine ⟨scan, cache₁, state₁, hparse, ?_⟩
  intro form hform hdefect
  have hexpand := (comesFrom_of_finish hfinish).expanded form hform
  have hshaped := shaped_of_run_parse hparse hform hdefect
  refine ⟨fun name => ?_, fun f hf v hv => ?_⟩
  · have hcompleted {f : Field} (hf : f ∈ form.fields) :
        (form.fillDefaults scan.values)[f.name]?.isSome = true ↔
          f.name ∈ scan.values ∨ f.defaultValue.isSome = true := by
      rw [Form.getElem?_fillDefaults hdefect hf, Field.isSome_completed_iff,
        Std.ExtTreeMap.mem_iff_isSome_getElem?]
    rw [Std.ExtTreeMap.mem_iff_isSome_getElem?]
    constructor
    · intro hname
      obtain ⟨typed, htyped⟩ := Option.isSome_iff_exists.mp hname
      obtain ⟨f, hf, rfl, raw, hraw⟩ := Expansion.exists_field_of_expandValues hexpand htyped
      exact ⟨f, hf, rfl, (hcompleted hf).mp (Option.isSome_iff_exists.mpr ⟨raw, hraw⟩)⟩
    · rintro ⟨f, hf, rfl, hgiven⟩
      obtain ⟨raw, hraw⟩ := Option.isSome_iff_exists.mp ((hcompleted hf).mpr hgiven)
      obtain ⟨typed, htyped, -⟩ := Expansion.exists_of_expandValues hdefect hexpand hf hraw
      exact Option.isSome_iff_exists.mpr ⟨typed, htyped⟩
  · obtain ⟨_, -, -, raw, hraw⟩ := Expansion.exists_field_of_expandValues hexpand hv
    obtain ⟨typed, htyped, hexpanded⟩ := Expansion.exists_of_expandValues hdefect hexpand hf hraw
    obtain rfl : typed = v := Option.some.inj (htyped.symm.trans hv)
    obtain ⟨hkind, hbool⟩ := Expansion.kind_of_expandField hexpanded
    rw [Form.getElem?_fillDefaults hdefect hf] at hraw
    -- for a truth value the two shapes are equal anyway, so the kinds are equal if the shapes are
    rw [← Field.isList_of_completed (hshaped f hf) hraw, hkind, Field.kind]
    refine FieldType.kind_eq_kind_iff fun htype => ?_
    rw [hbool htype, Form.multiselect_of_bool hdefect hf htype]

/-- A text that is typed goes into the request as a text, and nothing else does. -/
theorem compose_well_typed_note :
    ∃ request, ((noteSession.compose (.offline (StateM Unit)) "/note --text hi").run .empty).run () =
        ((.ok request, .empty), ()) ∧
      (∀ name : String, name ∈ request.values ↔ name = "text") ∧
      ∀ v, request.values["text"]? = some v → v.kind = .text := by
  have hcompose : ∃ request,
      ((noteSession.compose (.offline (StateM Unit)) "/note --text hi").run .empty).run () =
        ((.ok request, .empty), ()) := by
    rw [compose_of_parse parse_note_text]
    exact ⟨_, rfl⟩
  obtain ⟨request, hrun⟩ := hcompose
  obtain ⟨scan, cache₁, state₁, hparse, htyped⟩ := compose_well_typed hrun
  rw [parse_note_text] at hparse
  cases hparse
  obtain ⟨hnames, hkinds⟩ := htyped noteForm rfl (by decide)
  refine ⟨request, hrun, fun name => (hnames name).trans ?_, fun v hv => ?_⟩
  · constructor
    · rintro ⟨f, hf, rfl, -⟩
      rw [List.mem_singleton.mp hf]
      rfl
    · rintro rfl
      exact ⟨textField, List.mem_cons_self, rfl, .inr rfl⟩
  · refine (hkinds textField List.mem_cons_self v hv).mpr fun hdefault => ?_
    rcases hdefault.used with hreadonly | hnone
    · cases hreadonly
    · cases hnone

end Session

end SlashCommand
