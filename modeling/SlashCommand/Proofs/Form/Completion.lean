import SlashCommand.Form.Completion
import SlashCommand.Proofs.Binding.Validation

/-!
# What completing a form does to one field

`Form.fillDefaults` goes through all fields and may write to each of them.  In a form without a
defect no two fields share a name, so what becomes of a field can be said without the others
(`Form.getElem?_fillDefaults`): a default stands where nothing was given, and replaces what was
given to a readonly field.

From that follows what a required field has that is not missing once the defaults are filled in
(`Form.exists_value_of_isMissing`).
-/

namespace SlashCommand

namespace Value

/-- A value that is made a list carries nothing only if it carried nothing before. -/
theorem isEmpty_of_isEmpty_asList {multiselect : Bool} {v : Value}
    (h : (v.asList multiselect).isEmpty = true) : v.isEmpty = true := by
  cases v with
  | list tokens => exact h
  | scalar token =>
    cases multiselect with
    | false => exact h
    | true => cases h

end Value

namespace Field

/-- What a field has once its default is put in, if it was given something or nothing. -/
def completed (f : Field) (given : Option Value) : Option Value :=
  match f.defaultValue with
  | none => given
  | some default =>
    if !f.readonly && given.isSome then given else some (default.asList f.multiselect)

/-- A field that may be given keeps what it was given. -/
theorem completed_of_some {f : Field} (h : f.readonly = false) (v : Value) :
    f.completed (some v) = some v := by
  unfold completed
  cases f.defaultValue with
  | none => rfl
  | some default => simp [h]

/-- A field has what it was given, if it may be given or has no default, or else its default. -/
theorem completed_cases (f : Field) (given : Option Value) :
    f.completed given = given ∧ f.readonly = false ∧ given.isSome = true ∨
      f.completed given = given ∧ f.defaultValue = none ∨
      ∃ default, f.defaultValue = some default ∧
        f.completed given = some (default.asList f.multiselect) ∧
        (f.readonly = true ∨ given = none) := by
  unfold completed
  cases f.defaultValue with
  | none => exact .inr (.inl ⟨rfl, rfl⟩)
  | some default =>
    dsimp only
    split
    · rename_i hgiven
      simp only [Bool.and_eq_true, Bool.not_eq_true'] at hgiven
      exact .inl ⟨rfl, hgiven⟩
    · rename_i hgiven
      refine .inr (.inr ⟨default, rfl, rfl, ?_⟩)
      simpa [Bool.and_eq_true, Decidable.imp_iff_not_or] using hgiven

/-- The field is required, and its default takes away whatever it was given. -/
def isErased (f : Field) : Bool :=
  f.isRequired && f.readonly && f.defaultValue.any fun d => (d.asList f.multiselect).isEmpty

end Field

namespace Form

variable {values : Values} {f g : Field} {fields : List Field} {form : Form}

theorem getElem?_fillDefault_self :
    (fillDefault values f)[f.name]? = f.completed values[f.name]? := by
  unfold fillDefault Field.completed
  cases f.defaultValue with
  | none => rfl
  | some default =>
    rw [Std.ExtTreeMap.contains_eq_isSome_getElem?]
    dsimp only
    split
    · rfl
    · exact Std.ExtTreeMap.getElem?_insert_self

/-- The default of a field is nothing to another field. -/
theorem getElem?_fillDefault_of_ne (h : g.name ≠ f.name) :
    (fillDefault values g)[f.name]? = values[f.name]? := by
  unfold fillDefault
  split
  · split
    · rfl
    · rw [Std.ExtTreeMap.getElem?_insert, if_neg (h ∘ Std.compare_eq_iff_eq.mp)]
  · rfl

/-- The defaults of other fields are nothing to a field. -/
theorem getElem?_foldl_fillDefault_of_ne (h : ∀ g ∈ fields, g.name ≠ f.name) :
    (fields.foldl fillDefault values)[f.name]? = values[f.name]? := by
  induction fields generalizing values with
  | nil => rfl
  | cons g fields ih =>
    rw [List.foldl_cons, ih fun g' hg' => h g' (List.mem_cons_of_mem g hg')]
    exact getElem?_fillDefault_of_ne (h g List.mem_cons_self)

/-- Among fields that are apart, a field has what its own default makes of it. -/
theorem getElem?_foldl_fillDefault (h : fields.Pairwise Field.Apart) (hf : f ∈ fields) :
    (fields.foldl fillDefault values)[f.name]? = f.completed values[f.name]? := by
  induction fields generalizing values with
  | nil => cases hf
  | cons g fields ih =>
    obtain ⟨hhead, htail⟩ := List.pairwise_cons.mp h
    rw [List.foldl_cons]
    rcases List.mem_cons.mp hf with rfl | hf
    · rw [getElem?_foldl_fillDefault_of_ne fun g hg => (hhead g hg).name.symm]
      exact getElem?_fillDefault_self
    · rw [ih htail hf, getElem?_fillDefault_of_ne (hhead f hf).name]

/-- In a form without a defect, a field has what its own default makes of it. -/
theorem getElem?_fillDefaults (h : form.defect? = none) (hf : f ∈ form.fields) (values : Values) :
    (form.fillDefaults values)[f.name]? = f.completed values[f.name]? :=
  getElem?_foldl_fillDefault (pairwise_apart h) hf

/-- A required field that is not missing once the defaults are filled in has a value.  It carries
nothing only if it was given so to a field that may be given. -/
theorem exists_value_of_isMissing (h : form.defect? = none) (hf : f ∈ form.fields)
    (hrequired : f.isRequired = true) (hpresent : isMissing (form.fillDefaults values) f = false) :
    ∃ v, (form.fillDefaults values)[f.name]? = some v ∧
      (v.isEmpty = true → f.readonly = false ∧ values[f.name]? = some v) := by
  unfold isMissing at hpresent
  rw [hrequired, Bool.true_and] at hpresent
  rw [getElem?_fillDefaults h hf] at hpresent ⊢
  rcases f.completed_cases values[f.name]? with ⟨hkept, hreadonly, hgiven⟩ | ⟨hkept, hnone⟩ |
    ⟨default, hdefault, hfilled, -⟩
  · obtain ⟨v, hv⟩ := Option.isSome_iff_exists.mp hgiven
    rw [hkept]
    exact ⟨v, hv, fun _ => ⟨hreadonly, hv⟩⟩
  · rw [hkept, hnone] at hpresent
    rw [hkept]
    cases hgiven : values[f.name]? with
    | none =>
      rw [hgiven] at hpresent
      cases hpresent
    | some v =>
      refine ⟨v, rfl, fun hempty => ?_⟩
      rw [hgiven] at hpresent
      simp [hempty] at hpresent
  · refine ⟨_, hfilled, fun hempty => ?_⟩
    rw [hfilled, hdefault] at hpresent
    simp [hempty, Value.isEmpty_of_isEmpty_asList hempty] at hpresent

/-- A field that is not missing is not missing once the defaults are filled in, unless its own
default takes away what it was given. -/
theorem isMissing_fillDefaults (h : form.defect? = none) (hf : f ∈ form.fields)
    (hkept : f.isErased = false) (hpresent : isMissing values f = false) :
    isMissing (form.fillDefaults values) f = false := by
  cases hrequired : f.isRequired with
  | false => rw [isMissing, hrequired, Bool.false_and, Bool.false_and]
  | true =>
    unfold isMissing at hpresent ⊢
    rw [getElem?_fillDefaults h hf]
    rcases f.completed_cases values[f.name]? with ⟨hgiven, -, -⟩ | ⟨hgiven, -⟩ |
      ⟨default, hdefault, hfilled, -⟩
    · rw [hgiven]
      exact hpresent
    · rw [hgiven]
      exact hpresent
    · -- An empty default stands only where nothing was given, and then the field was missing.
      rw [hrequired, hdefault, Bool.true_and] at hpresent ⊢
      rw [hfilled]
      cases hempty : (default.asList f.multiselect).isEmpty with
      | false => simp [hempty]
      | true =>
        have hreadonly : f.readonly = false := by
          simpa [Field.isErased, hrequired, hdefault, hempty] using hkept
        cases hgiven : values[f.name]? with
        | none => simp [hgiven, Value.isEmpty_of_isEmpty_asList hempty] at hpresent
        | some v =>
          rw [hgiven, Field.completed_of_some hreadonly] at hfilled
          simp [hgiven, Option.some.inj hfilled, hempty,
            Value.isEmpty_of_isEmpty_asList hempty] at hpresent

/-- No required field is missing once the defaults are filled in, if none was missing before and no
default takes away what its field was given. -/
theorem missingFields_fillDefaults (h : form.defect? = none)
    (hkept : ∀ f ∈ form.fields, f.isErased = false) (hpresent : form.missingFields values = []) :
    form.missingFields (form.fillDefaults values) = [] := by
  refine List.filter_eq_nil_iff.mpr fun f hf => ?_
  have hf' : isMissing values f = false := by
    simpa using List.filter_eq_nil_iff.mp hpresent f hf
  simp [isMissing_fillDefaults h hf (hkept f hf) hf']

end Form

end SlashCommand
