import SlashCommand.Proofs.Scan.Shapes
import SlashCommand.Proofs.Scan.Spans

/-!
# What fields may hold

The values that a scan stores are values of the fields of its form, and each is one that its field
may hold: a list where the field takes lists and a single token where it does not, with no empty
token in it, and when the command is executed a boolean field holds one of the two truth
values.  This is so of every form without defects and at the end of every scan, whether it has
failed or not (`admits_parseForm`).

Each of the writes of a step keeps it (`Writes.admits`).  That a token is not empty when it is
stored is known from the text that was typed for it, which is in `Spans`; only for bare tokens it is
checked.
-/

namespace SlashCommand

/-- The field may hold the value. -/
structure Field.Admits (mode : ScanMode) (field : Field) (v : Value) : Prop where
  isList_eq : v.isList = field.multiselect
  nonempty : "" ∉ v.tokens
  truth : mode = .execute → field.type = .bool → v = .scalar "true" ∨ v = .scalar "false"

/-- Every value is that of a field of the form, and the field may hold it. -/
def Form.Admits (mode : ScanMode) (form : Form) (values : Values) : Prop :=
  ∀ name v, values[name]? = some v → ∃ field ∈ form.fields, field.name = name ∧ field.Admits mode v

variable {form : Form} {mode : ScanMode} {field : Field} {values : Values} {v : Value}
  {token : String}

theorem Field.Admits.nil (hform : form.defect? = none) (hfield : field ∈ form.fields)
    (hmulti : field.multiselect = true) : field.Admits mode (.list []) where
  isList_eq := hmulti.symm
  nonempty := List.not_mem_nil
  truth _ hbool := by
    rw [Form.multiselect_of_bool hform hfield hbool] at hmulti
    cases hmulti

/-- A list that has one more token is a list. -/
theorem Field.Admits.concat {tokens : List String} (h : field.Admits mode (.list tokens))
    (htoken : token ≠ "") : field.Admits mode (.list (tokens ++ [token])) where
  isList_eq := h.isList_eq
  nonempty hmem := by
    rcases List.mem_append.mp hmem with hmem | hmem
    · exact h.nonempty hmem
    · exact htoken (List.mem_singleton.mp hmem).symm
  truth hmode hbool := by
    rcases h.truth hmode hbool with htrue | hfalse
    · cases htrue
    · cases hfalse

theorem Field.Admits.ofToken (hform : form.defect? = none) (hfield : field ∈ form.fields)
    (htoken : token ≠ "") (hbool : field.type = .bool → Scan.acceptsBool mode token = true) :
    field.Admits mode (.ofToken field.multiselect token) where
  isList_eq := Value.isList_ofToken _ _
  nonempty := by
    have hsingle : (Value.ofToken field.multiselect token).tokens = [token] := by
      cases field.multiselect with
      | false => rfl
      | true => rfl
    rw [hsingle, List.mem_singleton]
    exact htoken.symm
  truth hmode htype := by
    have haccepted := hbool htype
    subst hmode
    rw [Form.multiselect_of_bool hform hfield htype]
    rcases Bool.or_eq_true_iff.mp haccepted with htrue | hfalse
    · exact .inl (congrArg Value.scalar (eq_of_beq htrue))
    · exact .inr (congrArg Value.scalar (eq_of_beq hfalse))

namespace Form.Admits

theorem empty : form.Admits mode ∅ := by
  intro name v h
  rw [Std.ExtTreeMap.getElem?_empty] at h
  cases h

theorem insert (h : form.Admits mode values) (hfield : field ∈ form.fields)
    (hv : field.Admits mode v) : form.Admits mode (values.insert field.name v) := by
  intro name v' h'
  rw [Std.ExtTreeMap.getElem?_insert] at h'
  split at h'
  · rename_i heq
    rw [← Option.some.inj h']
    exact ⟨field, hfield, Std.compare_eq_iff_eq.mp heq, hv⟩
  · exact h name v' h'

theorem appendTo (h : form.Admits mode values) (name : String) (htoken : token ≠ "") :
    form.Admits mode (Scan.appendTo name token values) := by
  unfold Scan.appendTo
  split
  · rename_i tokens htokens
    obtain ⟨field, hfield, rfl, hadmits⟩ := h name _ htokens
    exact h.insert hfield (hadmits.concat htoken)
  · exact h

/-- Where names tell the fields apart, the field is the one of the name. -/
theorem field_admits (h : form.Admits mode values) (hform : form.defect? = none)
    (hfield : field ∈ form.fields) (hv : values[field.name]? = some v) : field.Admits mode v := by
  obtain ⟨field', hfield', hname, hadmits⟩ := h field.name v hv
  obtain rfl := Form.eq_of_name_eq hform hfield hfield' hname.symm
  exact hadmits

end Form.Admits

/-! ## Tokens that are not empty -/

theorem QuotedText.token_ne_nil {q : Quote} {body token : List Char} (h : QuotedText q body token)
    (hbody : body ≠ []) : token ≠ [] := by
  cases h with
  | nil => exact absurd rfl hbody
  | plain | escaped => exact List.cons_ne_nil _ _

theorem ClosesQuotation.token_ne_nil {q : Quote} {raw token : List Char}
    (h : ClosesQuotation q raw token) : token ≠ [] := by
  obtain ⟨body, hbody, -, hquoted⟩ := h
  exact hquoted.token_ne_nil hbody

theorem ElementText.token_ne_nil {text token : List Char} (h : ElementText text token) :
    token ≠ [] := by
  cases h with
  | bare hne _ => exact hne
  | quoted h =>
    obtain ⟨hbody, hquoted⟩ := h
    exact hquoted.token_ne_nil hbody

theorem ElementPart.token_ne_nil {r text token : List Char}
    (h : ElementPart r .elementEnd text token) : token ≠ [] := by
  obtain - | - | helement := h
  exact helement.token_ne_nil

namespace Scan

variable {s : Scan}

/-! ## Steps -/

/-- Whatever a step stores, the field may hold it. -/
theorem Writes.admits (hwrites : Writes form mode s values) (hform : form.defect? = none)
    (hspans : Spans form s) (h : form.Admits mode s.values) : form.Admits mode values := by
  have hne (hnil : s.token.toList ≠ []) : s.token ≠ "" := by
    rintro heq
    exact hnil (String.toList_eq_nil_iff.mpr heq)
  cases hwrites with
  | kept => exact h
  | opened hfield hmulti =>
    have hmem := List.mem_of_getElem? hfield
    exact h.insert hmem (.nil hform hmem hmulti)
  | appended hfield hstate =>
    have hpart : ElementPart s.ahead .elementEnd s.typed s.token.toList := hspans.of_state hstate
    exact h.appendTo _ (hne hpart.token_ne_nil)
  | @stored i stage field hfield hstate hstage hbool =>
    have hmem := List.mem_of_getElem? hfield
    refine h.insert hmem (.ofToken hform hmem ?_ hbool)
    rcases hstage with ⟨-, htoken⟩ | ⟨q, rfl⟩
    · exact htoken
    · exact hne (hspans.tokenPart hstate rfl hfield).closesQuotation.token_ne_nil
  | omitted hfield hbool =>
    have hmem := List.mem_of_getElem? hfield
    refine h.insert hmem ⟨(Form.multiselect_of_bool hform hmem hbool).symm, ?_, fun _ _ => .inl rfl⟩
    simp [Value.tokens]
  | @rest i field hfield hstate =>
    have hmem := List.mem_of_getElem? hfield
    obtain ⟨-, hahead, field', hfield', hrest⟩ := hspans.of_state hstate
    obtain rfl := Option.some.inj (hfield'.symm.trans hfield)
    refine h.insert hmem (.ofToken hform hmem ?_ fun hbool => ?_)
    · intro hnil
      have hlist := congrArg String.toList hnil
      rw [String.toList_ofList] at hlist
      exact hahead hlist
    · simp [Field.isRest, hbool] at hrest

/-! ## Whole runs -/

/-- A run stores what the fields may hold, and stops or fails with it. -/
theorem admits_readForm (hform : form.defect? = none) (hs : Reading form s.text s)
    (hspans : Spans form s) (h : form.Admits mode s.values) :
    form.Admits mode (readForm form mode s).values := by
  have hkept {u : Scan} (hu : Spans form u) (hadmits : form.Admits mode u.values) :
      form.Admits mode (parameterStep form mode u).scan.values :=
    (writes_parameterStep form mode u).admits hform hu hadmits
  refine run_invariant
    (fun u => Reading form s.text u ∧ Spans form u ∧ form.Admits mode u.values)
    (fun u => form.Admits mode u.values) ?_ ?_ ?_ ⟨hs, hspans, h⟩
  · rintro u v ⟨hreading, hu, hadmits⟩ hstep
    refine ⟨hreading.next hstep, hu.next (hreading.text_eq ▸ hreading) hstep, ?_⟩
    have hv := hkept hu hadmits
    rwa [hstep] at hv
  · rintro u v ⟨-, hu, hadmits⟩ hstep
    have hv := hkept hu hadmits
    rwa [hstep] at hv
  · rintro u v e ⟨-, hu, hadmits⟩ hstep
    have hv := hkept hu hadmits
    rwa [hstep] at hv

/-- **Stored values.**  Whatever the command is, and whether or not it ends in an error, every value
that is stored is that of a field of the form, and one that the field may hold. -/
theorem admits_parseForm {matching : ScanMode} (hform : form.defect? = none) (command : String)
    (bindings : List Binding) (mode : ScanMode) :
    let a := (((ofText command).matchBinding bindings matching).withForm form).parseForm mode
    (∀ name ∈ a.values, ∃ field ∈ form.fields, field.name = name) ∧
      ∀ field ∈ form.fields, ∀ v, a.values[field.name]? = some v → field.Admits mode v := by
  intro a
  have hempty := (sameInput_matchBinding (ofText command) bindings matching).values
  have hbegin : form.Admits mode ((ofText command).matchBinding bindings matching).values := by
    rw [hempty]
    exact .empty
  have hadmits : form.Admits mode a.values := by
    show form.Admits mode (((ofText command).matchBinding bindings matching).withForm
      form |>.parseForm mode).values
    rw [parseForm_withForm]
    split
    · exact hbegin
    · rename_i hm
      obtain ⟨-, hreading, hspans⟩ := spans_matchBinding form (Bool.eq_false_iff.mpr hm)
      exact admits_readForm hform hreading hspans hbegin
  refine ⟨fun name hname => ?_, fun field hfield v hv => hadmits.field_admits hform hfield hv⟩
  obtain ⟨field, hfield, heq, -⟩ := hadmits name _ (Std.ExtTreeMap.getElem?_eq_some_getElem hname)
  exact ⟨field, hfield, heq⟩

/-- The truth value is left out, and the token behind it is the note. -/
theorem admits_parseForm_reminder :
    let command := "/remind --daily soon"
    let m := (ofText command).matchBinding [{ label := "remind" }] .execute
    let a := (m.withForm reminderForm).parseForm .execute
    reminderForm.defect? = none ∧
      a.values = ((∅ : Values).insert "daily" (.scalar "true")).insert "note" (.scalar "soon") ∧
      (∀ name ∈ a.values, ∃ field ∈ reminderForm.fields, field.name = name) ∧
      ∀ field ∈ reminderForm.fields, ∀ v, a.values[field.name]? = some v →
        field.Admits .execute v := by
  intro command m a
  have hm : (ofText "/remind --daily soon").matchBinding [{ label := "remind" }] .execute =
      reminder "/remind --daily soon" :=
    matchBinding_of_runWithin 20 (reminder "/remind --daily soon") rfl (List.cons_ne_nil _ _) rfl
  have hrun : (runWithin (parameterStep reminderForm .execute) 60
      ((reminder "/remind --daily soon").withForm reminderForm).rewind).map (·.2.values) =
        some (((∅ : Values).insert "daily" (.scalar "true")).insert "note" (.scalar "soon")) := by
    rfl
  obtain ⟨r, hr, hvalues⟩ := Option.map_eq_some_iff.mp hrun
  have ha : a = r.2 := by
    show (m.withForm reminderForm).parseForm .execute = _
    rw [show m = _ from hm]
    exact parseForm_of_runWithin 60 r.2 rfl (by rw [hr]; rfl)
  have hform : reminderForm.defect? = none := by decide
  exact ⟨hform, ha ▸ hvalues,
    admits_parseForm hform command [{ label := "remind" }] .execute⟩

end Scan

end SlashCommand
