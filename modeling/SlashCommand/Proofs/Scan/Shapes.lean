import SlashCommand.Proofs.Binding.Validation
import SlashCommand.Proofs.Scan.Writes

/-!
# The shape of stored values

A value is one token or a list of tokens, and its field says which.  A scan keeps to that: whatever
is typed, a field that takes lists is given a list, and any other field a single token
(`shaped_parseForm`).

Where a truth value is left out the form must have no defect, because the value that is put in is a
single token.  The other writes look at the field themselves, or add to a list.
-/

namespace SlashCommand

/-- The value is a list of tokens. -/
def Value.isList : Value → Bool
  | scalar _ => false
  | list _ => true

theorem Value.isList_ofToken (multiselect : Bool) (token : String) :
    (Value.ofToken multiselect token).isList = multiselect := by
  cases multiselect with
  | false => rfl
  | true => rfl

/-- A value is a list where its field takes lists, and only there. -/
def Form.Shaped (form : Form) (values : Values) : Prop :=
  ∀ f ∈ form.fields, ∀ v, values[f.name]? = some v → v.isList = f.multiselect

namespace Form.Shaped

variable {form : Form} {values : Values} {field : Field} {v : Value}

theorem empty : form.Shaped ∅ := by
  intro f _ v h
  rw [Std.ExtTreeMap.getElem?_empty] at h
  cases h

theorem insert (h : form.Shaped values) (hform : form.defect? = none)
    (hfield : field ∈ form.fields) (hv : v.isList = field.multiselect) :
    form.Shaped (values.insert field.name v) := by
  intro f hf v' h'
  rw [Std.ExtTreeMap.getElem?_insert] at h'
  split at h'
  · rename_i heq
    obtain rfl := Form.eq_of_name_eq hform hfield hf (Std.compare_eq_iff_eq.mp heq)
    rw [← Option.some.inj h']
    exact hv
  · exact h f hf v' h'

/-- A list that has one more element is a list. -/
theorem appendTo (h : form.Shaped values) (hform : form.defect? = none)
    (hfield : field ∈ form.fields) (token : String) :
    form.Shaped (Scan.appendTo field.name token values) := by
  unfold Scan.appendTo
  split
  · rename_i tokens htokens
    exact h.insert hform hfield (h field hfield _ htokens :)
  · exact h

end Form.Shaped

namespace Scan

variable {form : Form} {mode : ScanMode} {s : Scan} {field : Field} {i : Nat}

/-- Whatever a step stores is stored as its field asks.  A truth value that is left out is a single
token, as it must be. -/
theorem Writes.shaped {values : Values} (hwrites : Writes form mode s values)
    (h : form.Shaped s.values) (hform : form.defect? = none) : form.Shaped values := by
  cases hwrites with
  | kept => exact h
  | opened hfield hmulti => exact h.insert hform (List.mem_of_getElem? hfield) hmulti.symm
  | appended hfield _ => exact h.appendTo hform (List.mem_of_getElem? hfield) s.token
  | stored hfield _ _ _ | rest hfield _ =>
    exact h.insert hform (List.mem_of_getElem? hfield) (Value.isList_ofToken _ _)
  | omitted hfield hbool =>
    have hmem := List.mem_of_getElem? hfield
    exact h.insert hform hmem (Form.multiselect_of_bool hform hmem hbool).symm

/-- Whatever the text is, the form is read into values as its fields ask. -/
theorem shaped_parseForm {scan : Scan} (hscan : scan.form = some form)
    (hform : form.defect? = none) (h : form.Shaped scan.values) (mode : ScanMode) :
    form.Shaped (scan.parseForm mode).values := by
  unfold parseForm
  rw [hscan]
  dsimp only
  split
  · exact h
  · exact run_preserves (fun t => form.Shaped t.values)
      (fun t ht => (writes_parameterStep form mode t).shaped ht hform) (fun _ _ ht => ht) h

/-! ## Lists that are open -/

/-- Inside brackets the field holds the list of the elements so far. -/
def HoldsList (form : Form) (s : Scan) : Prop :=
  ∀ i stage field, s.state = .list i stage → form.fields[i]? = some field →
    ∃ tokens, s.values[field.name]? = some (.list tokens)

variable {t : Scan}

theorem holdsList_of_outside (h : t.state.isListElement = false) : HoldsList form t := by
  intro i stage field hstate
  rw [hstate] at h
  cases h

/-- The brackets stay open as long as the values are kept. -/
theorem HoldsList.of_values {stage stage' : ListStage} (h : HoldsList form s)
    (hstate : s.state = .list i stage) (hvalues : t.values = s.values)
    (ht : t.state = .list i stage') : HoldsList form t := by
  intro j _ f hj hf
  have hplace : j = i := by
    rw [ht] at hj
    injection hj with hplace
    exact hplace.symm
  subst hplace
  rw [hvalues]
  exact h _ stage f hstate hf

/-- Brackets are opened with the empty list. -/
theorem holdsList_opened (hfield : form.fields[i]? = some field) :
    HoldsList form ((s.beginToken.assign field.name (.list [])).advance.goto (.list i .start)) := by
  intro j _ f hj hf
  injection hj with hplace
  subst hplace
  obtain rfl := Option.some.inj (hfield.symm.trans hf)
  exact ⟨[], Std.ExtTreeMap.getElem?_insert_self⟩

theorem ValueMoves.holdsList {stage : ValueStage} (hmove : ValueMoves mode field i s stage t)
    (hfield : form.fields[i]? = some field) (hstate : s.state = .value i stage) :
    HoldsList form t := by
  have hsame {t : Scan} (h : t.state = s.state) : HoldsList form t :=
    holdsList_of_outside (by rw [h, hstate]; rfl)
  cases hmove with
  | bracket => exact holdsList_opened hfield
  | gap | push => exact hsame rfl
  | quoted hquoted =>
    rcases hquoted.state_eq with hstay | hclosed
    · exact hsame hstay
    · exact holdsList_of_outside (by rw [hclosed]; rfl)
  | endBare hend | endQuoted hend =>
    cases hend with
    | rescan | close => exact holdsList_of_outside rfl
  | separatorEnd | equals | begin | startEnd | quote | bare | complete =>
    exact holdsList_of_outside rfl

/-- Inside brackets elements are appended to the list. -/
theorem ListMoves.holdsList {stage : ListStage} (hmove : ListMoves field i s stage t)
    (hfield : form.fields[i]? = some field) (hstate : s.state = .list i stage)
    (h : HoldsList form s) : HoldsList form t := by
  cases hmove with
  | gap | push => exact h.of_values hstate rfl hstate
  | close => exact holdsList_of_outside rfl
  | begin | startEnd | quote | bare | complete | comma => exact h.of_values hstate rfl rfl
  | quoted hquoted =>
    rcases hquoted.state_eq with hstay | hclosed
    · exact h.of_values hstate hquoted.values_eq (hstay.trans hstate)
    · exact h.of_values hstate hquoted.values_eq hclosed
  | append =>
    intro j _ f hj hf
    injection hj with hplace
    subst hplace
    obtain rfl := Option.some.inj (hfield.symm.trans hf)
    obtain ⟨tokens, htokens⟩ := h _ _ field hstate hfield
    refine ⟨tokens ++ [s.token], ?_⟩
    show (appendTo field.name s.token s.values)[field.name]? = _
    rw [appendTo, htokens]
    exact Std.ExtTreeMap.getElem?_insert_self

theorem Moves.holdsList (hmove : Moves form mode s t) (h : HoldsList form s) :
    HoldsList form t := by
  cases hmove with
  | gap hstate | name hstate =>
    refine holdsList_of_outside ?_
    show s.state.isListElement = false
    rw [hstate]
    rfl
  | value hfield hstate hvalue => exact hvalue.holdsList hfield hstate
  | list hfield hstate hlist => exact hlist.holdsList hfield hstate h
  | dash | positional | rest | begin | secondDash | singleDash | flag | listEnd =>
    exact holdsList_of_outside rfl

theorem HoldsList.congr (h : HoldsList form s) (hstate : t.state = s.state)
    (hvalues : t.values = s.values) : HoldsList form t := by
  intro i stage field ht
  rw [hvalues]
  exact h i stage field (hstate.symm.trans ht)

theorem Stops.holdsList (hstops : Stops form mode s t) (h : HoldsList form s) :
    HoldsList form t := by
  cases hstops with
  | quotedValue _ _ hcut | quotedElement _ _ hcut => exact h.congr hcut.state_eq hcut.values_eq
  | parameterSeparator => exact holdsList_of_outside rfl
  | close _ hstate | rest _ hstate =>
    refine holdsList_of_outside ?_
    show s.state.isListElement = false
    rw [hstate]
    rfl
  | _ => exact h.congr rfl rfl

/-- A step keeps the list of the field whose brackets are open. -/
theorem holdsList_parameterStep (h : HoldsList form s) :
    HoldsList form (parameterStep form mode s).scan :=
  scan_parameterStep (fun _ hmove => hmove.holdsList h) (fun _ hstops => hstops.holdsList h)
    (fun _ _ hfails => h.congr hfails.state_eq hfails.values_eq) h

theorem holdsList_readForm (h : HoldsList form s) :
    HoldsList form (run (parameterStep form mode) (parameterMeasure form) parameterMeasure_lt s) :=
  run_preserves (HoldsList form) (fun _ ht => holdsList_parameterStep ht)
    (fun _ _ _ => holdsList_of_outside rfl) h

end Scan

end SlashCommand
