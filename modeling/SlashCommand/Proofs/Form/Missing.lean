import SlashCommand.Proofs.Form.Completion
import SlashCommand.Proofs.Scan.Shapes

/-!
# Missing before and after the defaults are filled in

The required fields that are missing are asked for twice: of the values that were given, before a
command is offered to be executed, and of the completed ones, before it becomes a request.  The
answers differ for two kinds of fields:

* An empty default of a readonly field takes away what was given (`Field.Loses`).
* An empty text that is the default of a field that takes lists is filled in as a list with one
  element, which is no empty list (`Field.Gains`).

There are no others: this is `Form.missingFields_fillDefaults_eq_iff`.
-/

namespace SlashCommand

namespace Field

variable {f : Field} {given : Option Value}

/-- The field is required, and has neither been given anything nor a default that is anything. -/
def isUnmet (f : Field) (given : Option Value) : Bool :=
  f.isRequired && given.all Value.isEmpty && f.defaultValue.all Value.isEmpty

/-- The required field may not be given, and its default is empty: what it was given nevertheless is
lost. -/
structure Loses (f : Field) (given : Option Value) : Prop where
  required : f.isRequired = true
  readonly : f.readonly = true
  default : ∃ d, f.defaultValue = some d ∧ (d.asList f.multiselect).isEmpty = true
  given : ∃ v, given = some v ∧ v.isEmpty = false

/-- The required field takes lists and has the empty text as its default, which is used because
nothing was given or because it has to be. -/
structure Gains (f : Field) (given : Option Value) : Prop where
  required : f.isRequired = true
  multiselect : f.multiselect = true
  default : f.defaultValue = some (.scalar "")
  given : given = none ∨ f.readonly = true ∧ ∃ v, given = some v ∧ v.isEmpty = true

theorem isUnmet_eq_true_iff : f.isUnmet given = true ↔
    f.isRequired = true ∧ given.all Value.isEmpty = true ∧
      f.defaultValue.all Value.isEmpty = true := by
  rw [isUnmet, Bool.and_eq_true, Bool.and_eq_true, and_assoc]

/-- An empty default that is no empty list is an empty text for a field that takes lists. -/
theorem default_of_isEmpty {d : Value} (hempty : d.isEmpty = true)
    (hfilled : (d.asList f.multiselect).isEmpty = false) :
    f.multiselect = true ∧ d = .scalar "" := by
  cases d with
  | list tokens => cases hempty.symm.trans hfilled
  | scalar token =>
    rw [Value.isEmpty, beq_iff_eq] at hempty
    subst hempty
    cases hmulti : f.multiselect with
    | false =>
      rw [hmulti] at hfilled
      cases hfilled
    | true => exact ⟨rfl, rfl⟩

/-- A default that is used takes the place of what was given. -/
theorem completed_of_used {d : Value} (hdefault : f.defaultValue = some d)
    (hused : f.readonly = true ∨ given = none) :
    f.completed given = some (d.asList f.multiselect) := by
  unfold completed
  rw [hdefault]
  rcases hused with hreadonly | rfl
  · simp [hreadonly]
  · simp

/-- A field is unmet only once its default is filled in exactly if it loses what it was given. -/
theorem unmet_completed_iff :
    f.isUnmet (f.completed given) = true ∧ f.isUnmet given = false ↔ f.Loses given := by
  constructor
  · rintro ⟨hafter, hbefore⟩
    rcases f.completed_cases given with ⟨hkept, -⟩ | ⟨hkept, -⟩ | ⟨d, hdefault, hfilled, hused⟩
    · cases hafter.symm.trans (hkept ▸ hbefore)
    · cases hafter.symm.trans (hkept ▸ hbefore)
    · obtain ⟨hrequired, hempty, hdefaults⟩ := isUnmet_eq_true_iff.mp hafter
      rw [hfilled] at hempty
      have hgiven : given.all Value.isEmpty = false := by
        simpa [isUnmet, hrequired, hdefaults] using hbefore
      obtain ⟨v, rfl⟩ : ∃ v, given = some v := by
        cases given with
        | none => cases hgiven
        | some v => exact ⟨v, rfl⟩
      exact ⟨hrequired, hused.resolve_right nofun, ⟨d, hdefault, hempty⟩, ⟨v, rfl, hgiven⟩⟩
  · intro h
    obtain ⟨d, hdefault, hempty⟩ := h.default
    obtain ⟨v, rfl, hv⟩ := h.given
    rw [completed_of_used hdefault (.inl h.readonly)]
    refine ⟨isUnmet_eq_true_iff.mpr ⟨h.required, hempty, ?_⟩, ?_⟩
    · rw [hdefault]
      exact Value.isEmpty_of_isEmpty_asList hempty
    · simp [isUnmet, hv]

/-- A field is unmet only before its default is filled in exactly if it gains a value by that. -/
theorem unmet_given_iff :
    f.isUnmet given = true ∧ f.isUnmet (f.completed given) = false ↔ f.Gains given := by
  constructor
  · rintro ⟨hbefore, hafter⟩
    rcases f.completed_cases given with ⟨hkept, -⟩ | ⟨hkept, -⟩ | ⟨d, hdefault, hfilled, hused⟩
    · cases hbefore.symm.trans (hkept ▸ hafter)
    · cases hbefore.symm.trans (hkept ▸ hafter)
    · obtain ⟨hrequired, hgiven, hdefaults⟩ := isUnmet_eq_true_iff.mp hbefore
      have hnonempty : (d.asList f.multiselect).isEmpty = false := by
        simpa [isUnmet, hrequired, hdefaults, hfilled] using hafter
      rw [hdefault] at hdefaults
      obtain ⟨hmulti, rfl⟩ := default_of_isEmpty hdefaults hnonempty
      refine ⟨hrequired, hmulti, hdefault, ?_⟩
      cases given with
      | none => exact .inl rfl
      | some v => exact .inr ⟨hused.resolve_right nofun, v, rfl, hgiven⟩
  · intro h
    have hused : f.readonly = true ∨ given = none := h.given.symm.imp_left And.left
    have hgiven : given.all Value.isEmpty = true := by
      rcases h.given with rfl | ⟨-, v, rfl, hv⟩
      · rfl
      · exact hv
    rw [completed_of_used h.default hused]
    refine ⟨isUnmet_eq_true_iff.mpr ⟨h.required, hgiven, ?_⟩, ?_⟩
    · rw [h.default]
      rfl
    · simp [isUnmet, h.multiselect, Value.asList, Value.isEmpty]

end Field

namespace Form

variable {form : Form} {values : Values} {f : Field}

theorem mem_missingFields_iff :
    f ∈ form.missingFields values ↔ f ∈ form.fields ∧ f.isUnmet values[f.name]? = true :=
  List.mem_filter

/-- In a form without a defect, what is missing once the defaults are filled in is said of single
fields. -/
theorem mem_missingFields_fillDefaults_iff (h : form.defect? = none) :
    f ∈ form.missingFields (form.fillDefaults values) ↔
      f ∈ form.fields ∧ f.isUnmet (f.completed values[f.name]?) = true := by
  rw [mem_missingFields_iff]
  exact and_congr_right fun hf => by rw [getElem?_fillDefaults h hf]

/-- **What the defaults change.**  A required field of a form without a defect is missing only once
the defaults are filled in exactly if its own default takes away what it was given, and only before
exactly if its default is an empty text that becomes a list.  The missing fields are the same, in
the same order, exactly if no field is of these kinds. -/
theorem missingFields_fillDefaults_eq_iff (form : Form) (values : Values)
    (hform : form.defect? = none) :
    let before := form.missingFields values
    let after := form.missingFields (form.fillDefaults values)
    (∀ f ∈ form.fields,
      (f ∈ after ∧ f ∉ before ↔ f.Loses values[f.name]?) ∧
      (f ∈ before ∧ f ∉ after ↔ f.Gains values[f.name]?)) ∧
    (after = before ↔
      ∀ f ∈ form.fields, ¬ f.Loses values[f.name]? ∧ ¬ f.Gains values[f.name]?) := by
  intro before after
  have hsingle : ∀ f ∈ form.fields,
      (f ∈ after ∧ f ∉ before ↔ f.Loses values[f.name]?) ∧
      (f ∈ before ∧ f ∉ after ↔ f.Gains values[f.name]?) := by
    intro f hf
    rw [← Field.unmet_completed_iff, ← Field.unmet_given_iff,
      mem_missingFields_fillDefaults_iff hform, mem_missingFields_iff]
    simp [hf]
  refine ⟨hsingle, ?_⟩
  constructor
  · intro heq f hf
    obtain ⟨hloses, hgains⟩ := hsingle f hf
    rw [← hloses, ← hgains, heq]
    exact ⟨fun h => h.2 h.1, fun h => h.2 h.1⟩
  · intro hnone
    refine List.filter_congr fun f hf => Bool.eq_iff_iff.mpr ?_
    obtain ⟨hloses, hgains⟩ := hsingle f hf
    obtain ⟨hkept, hunset⟩ := hnone f hf
    rw [← hloses] at hkept
    rw [← hgains] at hunset
    have hmem (values : Values) : isMissing values f = true ↔ f ∈ form.missingFields values :=
      (List.mem_filter.trans (and_iff_right hf)).symm
    rw [hmem, hmem]
    exact ⟨fun h => Decidable.byContradiction fun hnot => hkept ⟨h, hnot⟩,
      fun h => Decidable.byContradiction fun hnot => hunset ⟨h, hnot⟩⟩

/-- A form with a readonly field and one that takes lists, both required and with a default. -/
def reportForm (status tags : String) : Form where
  fields := [
    { name := "status", isRequired := true, readonly := true
      defaultValue := some (.scalar status) },
    { name := "tags", isRequired := true, multiselect := true
      defaultValue := some (.scalar tags) }]
  call := some { path := "/report" }

/-- The status is given. -/
def reportValues : Values := (∅ : Values).insert "status" (.scalar "done")

theorem shaped_reportValues (status tags : String) :
    (reportForm status tags).Shaped reportValues := by
  intro f hf v hv
  simp only [reportForm, List.mem_cons, List.not_mem_nil, or_false] at hf
  rcases hf with rfl | rfl
  · have hstatus : reportValues["status"]? = some (.scalar "done") := rfl
    cases hstatus.symm.trans hv
    rfl
  · have htags : reportValues["tags"]? = none := rfl
    cases htags.symm.trans hv

/-- Defaults that are something leave both fields as they were: none is missing. -/
theorem missingFields_fillDefaults_eq_iff_open :
    let form := reportForm "open" "todo"
    form.defect? = none ∧
    form.missingFields (form.fillDefaults reportValues) = form.missingFields reportValues := by
  intro form
  have hform : form.defect? = none := by decide
  refine ⟨hform, (missingFields_fillDefaults_eq_iff _ reportValues hform).2.mpr fun f hf => ?_⟩
  simp only [form, reportForm, List.mem_cons, List.not_mem_nil, or_false] at hf
  rcases hf with rfl | rfl
  · refine ⟨fun h => ?_, fun h => Bool.false_ne_true h.multiselect⟩
    obtain ⟨d, hdefault, hempty⟩ := h.default
    cases hdefault
    exact absurd hempty (by decide)
  · exact ⟨fun h => Bool.false_ne_true h.readonly, fun h => absurd h.default (by decide)⟩

/-- Empty defaults.  Of the values that are given the tags are missing, and of the completed ones it
is the status. -/
theorem missingFields_fillDefaults_empty :
    let form := reportForm "" ""
    form.defect? = none ∧ form.Shaped reportValues ∧
    (form.missingFields reportValues).map (·.name) = ["tags"] ∧
    (form.missingFields (form.fillDefaults reportValues)).map (·.name) = ["status"] :=
  ⟨by decide, shaped_reportValues "" "", rfl, rfl⟩

end Form

end SlashCommand
