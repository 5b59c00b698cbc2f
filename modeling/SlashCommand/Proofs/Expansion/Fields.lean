import SlashCommand.Proofs.Expansion.Lists
import SlashCommand.Proofs.Expansion.Values
import Mathlib.Data.List.Nodup

/-!
# Each field on its own

What a field comes to depends on its own value and on nothing else (`own?`).  Expanding a form is
then a matter of sorting.  If every field has come to a value, the values are returned by name
(`getElem?_of_run_expandValues`), and otherwise the errors of the fields that have not, in the order
of the form (`run_expandValues_eq_error_iff`).

The directory is a function of its questions here.
-/

namespace SlashCommand

namespace Expansion

variable {backend : Backend Id} {teamId : Option String} {form : Form} {fields : List Field}
  {field f : Field} {values values' : Values} {v : Value} {typed : TypedValue} {e : ExpansionError}
  {errors : List ExpansionError} {typedValues : NameMap TypedValue} {name : String}

/-- What the value of a field comes to, if it has one. -/
def own? (backend : Backend Id) (teamId : Option String) (values : Values) (f : Field) :
    Option (Except ExpansionError TypedValue) :=
  values[f.name]?.map fun v => (expandField backend teamId f v).run

/-- The error of a field whose value cannot be expanded. -/
def ownError? (backend : Backend Id) (teamId : Option String) (values : Values) (f : Field) :
    Option ExpansionError :=
  match own? backend teamId values f with
  | some (.error e) => some e
  | _ => none

/-- The results of the fields that have a value, by name and in the order of the form. -/
def ownResults (backend : Backend Id) (teamId : Option String) (form : Form) (values : Values) :
    List (String × Except ExpansionError TypedValue) :=
  (presentFields form values).map fun p => (p.1.name, (expandField backend teamId p.1 p.2).run)

/-- The errors among results. -/
def errorsOf (results : List (String × Except ExpansionError TypedValue)) : List ExpansionError :=
  results.filterMap fun (_, r) =>
    match r with
    | .error e => some e
    | .ok _ => none

theorem collect_eq (results : List (String × Except ExpansionError TypedValue)) :
    collect results =
      if (errorsOf results).isEmpty then .ok (insertAll ∅ results)
      else .error (errorsOf results) := rfl

theorem run_expandValues :
    (expandValues backend teamId form values).run =
      collect (ownResults backend teamId form values) := by
  have hmap (present : List (Field × Value)) :
      present.mapM (fun p => (do return (p.1.name, ← expandField backend teamId p.1 p.2) :
        Id (String × Except ExpansionError TypedValue))) =
      present.map fun p => (p.1.name, (expandField backend teamId p.1 p.2).run) := by
    induction present with
    | nil => rfl
    | cons p present ih =>
      rw [List.mapM_cons, ih]
      rfl
  unfold expandValues
  exact congrArg collect (hmap _)

theorem ownError?_eq_some_iff :
    ownError? backend teamId values f = some e ↔
      own? backend teamId values f = some (.error e) := by
  unfold ownError?
  split
  · rename_i e' h
    rw [h, Option.some.injEq, Option.some.injEq, Except.error.injEq]
  · rename_i h
    exact ⟨nofun, fun hown => (h e hown).elim⟩

theorem ownError?_eq_none_iff :
    ownError? backend teamId values f = none ↔
      ∀ v, values[f.name]? = some v →
        ∃ typed, (expandField backend teamId f v).run = .ok typed := by
  unfold ownError? own?
  cases hvalue : values[f.name]? with
  | none => exact iff_of_true rfl nofun
  | some v =>
    dsimp only [Option.map_some]
    cases hrun : (expandField backend teamId f v).run with
    | error e =>
      refine iff_of_false nofun fun h => ?_
      obtain ⟨typed, htyped⟩ := h v rfl
      cases hrun.symm.trans htyped
    | ok typed =>
      refine iff_of_true rfl fun v' hv' => ⟨typed, ?_⟩
      rw [← Option.some.inj hv', hrun]

/-- What is the same for two values of a field is the same for what it comes to. -/
theorem own?_congr (h : values'[f.name]? = values[f.name]?) :
    own? backend teamId values' f = own? backend teamId values f := by
  rw [own?, own?, h]

theorem mem_ownResults_iff {r : Except ExpansionError TypedValue} :
    (name, r) ∈ ownResults backend teamId form values ↔
      ∃ f ∈ form.fields, f.name = name ∧ own? backend teamId values f = some r := by
  rw [ownResults, List.mem_map]
  constructor
  · rintro ⟨⟨f, v⟩, hp, heq⟩
    obtain ⟨hf, hv⟩ := mem_presentFields_iff.mp hp
    cases heq
    exact ⟨f, hf, rfl, by rw [own?, hv]; rfl⟩
  · rintro ⟨f, hf, rfl, hown⟩
    obtain ⟨v, hv, rfl⟩ := Option.map_eq_some_iff.mp hown
    exact ⟨(f, v), mem_presentFields_iff.mpr ⟨hf, hv⟩, rfl⟩

theorem nodup_ownResults (hnames : (form.fields.map (·.name)).Nodup) :
    ((ownResults backend teamId form values).map Prod.fst).Nodup := by
  rw [ownResults, List.map_map]
  exact nodup_presentFields hnames

/-- The errors among the results are those of the fields, in their order. -/
theorem errorsOf_ownResults :
    errorsOf (ownResults backend teamId form values) =
      form.fields.filterMap (ownError? backend teamId values) := by
  rw [errorsOf, ownResults, List.filterMap_map, presentFields, List.filterMap_filterMap]
  congr 1
  funext f
  unfold ownError? own?
  cases values[f.name]? with
  | none => rfl
  | some v =>
    dsimp only [Option.map_some, Option.bind_some, Function.comp_apply]
    cases (expandField backend teamId f v).run with
    | error e => rfl
    | ok typed => rfl

/-! ## The two outcomes -/

/-- The errors that come of expanding a form are those of the fields that have one. -/
theorem run_expandValues_eq_error_iff :
    (expandValues backend teamId form values).run = .error errors ↔
      errors ≠ [] ∧ errors = form.fields.filterMap (ownError? backend teamId values) := by
  rw [run_expandValues, collect_eq, errorsOf_ownResults]
  split
  · rename_i hnone
    rw [List.isEmpty_iff.mp hnone]
    exact ⟨nofun, fun ⟨hne, heq⟩ => (hne heq).elim⟩
  · rename_i hsome
    rw [Except.error.injEq]
    constructor
    · rintro rfl
      exact ⟨fun hnil => hsome (List.isEmpty_iff.mpr hnil), rfl⟩
    · rintro ⟨-, rfl⟩
      rfl

/-- A form is expanded if none of its fields has an error. -/
theorem exists_run_expandValues_iff :
    (∃ typedValues, (expandValues backend teamId form values).run = .ok typedValues) ↔
      ∀ f ∈ form.fields, ownError? backend teamId values f = none := by
  rw [← List.filterMap_eq_nil_iff]
  cases hout : (expandValues backend teamId form values).run with
  | ok typedValues =>
    refine iff_of_true ⟨typedValues, rfl⟩ (Decidable.byContradiction fun hne => ?_)
    cases hout.symm.trans (run_expandValues_eq_error_iff.mpr ⟨hne, rfl⟩)
  | error errors =>
    obtain ⟨hne, heq⟩ := run_expandValues_eq_error_iff.mp hout
    exact iff_of_false nofun (heq ▸ hne)

/-- In what a form of distinct names is expanded to, each name leads to what its field comes to. -/
theorem getElem?_of_run_expandValues (hnames : (form.fields.map (·.name)).Nodup)
    (h : (expandValues backend teamId form values).run = .ok typedValues) :
    typedValues[name]? = some typed ↔
      ∃ f ∈ form.fields, f.name = name ∧ own? backend teamId values f = some (.ok typed) := by
  rw [run_expandValues] at h
  rw [← mem_ownResults_iff]
  constructor
  · intro hname
    obtain ⟨⟨_, r⟩, hmem, rfl⟩ := List.mem_map.mp (mem_of_collect h hname)
    obtain ⟨typed', rfl, htyped⟩ := exists_of_collect h (nodup_ownResults hnames) hmem
    rwa [Option.some.inj (hname.symm.trans htyped)]
  · intro hmem
    obtain ⟨typed', heq, htyped⟩ := exists_of_collect h (nodup_ownResults hnames) hmem
    rwa [Except.ok.inj heq]

/-- In what a form of distinct names is expanded to, each field has what it comes to, which is no
error. -/
theorem own?_of_run_expandValues (hnames : (form.fields.map (·.name)).Nodup) (hf : f ∈ form.fields)
    (h : (expandValues backend teamId form values).run = .ok typedValues) :
    own? backend teamId values f = typedValues[f.name]?.map .ok := by
  cases hown : own? backend teamId values f with
  | none =>
    cases htyped : typedValues[f.name]? with
    | none => rfl
    | some typed =>
      obtain ⟨g, hg, hname, howng⟩ := (getElem?_of_run_expandValues hnames h).mp htyped
      obtain rfl : g = f := List.inj_on_of_nodup_map hnames hg hf hname
      cases hown.symm.trans howng
  | some r =>
    cases r with
    | error e =>
      cases (exists_run_expandValues_iff.mp ⟨typedValues, h⟩ f hf).symm.trans
        (ownError?_eq_some_iff.mpr hown)
    | ok typed =>
      rw [(getElem?_of_run_expandValues hnames h).mpr ⟨f, hf, rfl, hown⟩]
      rfl

/-! ## Errors name their fields -/

theorem field_of_expandField (h : (expandField backend teamId field v).run = .error e) :
    e.field = field.name := by
  unfold expandField at h
  split at h
  · cases h
  · cases h
  · cases h
  · cases h
  · cases h
    rfl
  · rename_i token htext _ _ hbool
    have hresolved : (answer backend teamId field token).map TypedValue.option = .error e := h
    cases hanswer : answer backend teamId field token with
    | ok option =>
      rw [hanswer] at hresolved
      cases hresolved
    | error e' =>
      rw [hanswer] at hresolved
      cases hresolved
      exact (blames_of_answer htext hbool hanswer).1
  · rename_i tokens htext hbool
    have hresolved :
        (resolveAfter backend teamId field [] tokens).run.map TypedValue.options = .error e := h
    obtain ⟨result, _, hplain, -, hsettled⟩ :=
      exists_settled backend teamId tokens [] htext hbool
    rw [← (run_expandField backend teamId tokens [] htext hbool).1, hplain] at hresolved
    rcases hsettled with ⟨options, rfl, -⟩ | ⟨i, e', rfl, hfirst, -⟩
    · cases hresolved
    · cases hresolved
      obtain ⟨_, -, hblames⟩ := hfirst.1.blames htext hbool
      exact hblames.1

theorem field_of_ownError? (h : ownError? backend teamId values f = some e) : e.field = f.name := by
  obtain ⟨v, -, hv⟩ := Option.map_eq_some_iff.mp (ownError?_eq_some_iff.mp h)
  exact field_of_expandField hv

theorem filter_ownErrors_of_notMem (h : name ∉ fields.map (·.name)) :
    (fields.filterMap (ownError? backend teamId values)).filter (·.field == name) = [] := by
  refine List.filter_eq_nil_iff.mpr fun e he hname => ?_
  obtain ⟨f, hf, hown⟩ := List.mem_filterMap.mp he
  rw [beq_iff_eq, field_of_ownError? hown] at hname
  exact h (List.mem_map.mpr ⟨f, hf, hname⟩)

/-- Among the errors of fields of distinct names, those that name a field are its own. -/
theorem filter_ownErrors (hnames : (fields.map (·.name)).Nodup) (hf : f ∈ fields) :
    (fields.filterMap (ownError? backend teamId values)).filter (·.field == f.name) =
      (ownError? backend teamId values f).toList := by
  induction fields with
  | nil => cases hf
  | cons g fields ih =>
    obtain ⟨hnot, htail⟩ := List.nodup_cons.mp hnames
    have hhead : (g :: fields).filterMap (ownError? backend teamId values) =
        (ownError? backend teamId values g).toList ++
          fields.filterMap (ownError? backend teamId values) := by
      rw [List.filterMap_cons]
      cases ownError? backend teamId values g <;> rfl
    rw [hhead, List.filter_append]
    rcases List.mem_cons.mp hf with rfl | hf
    · rw [filter_ownErrors_of_notMem hnot, List.append_nil]
      refine List.filter_eq_self.mpr fun e he => ?_
      exact beq_iff_eq.mpr (field_of_ownError? (Option.mem_toList.mp he))
    · rw [ih htail hf]
      have hother : (ownError? backend teamId values g).toList.filter (·.field == f.name) = [] := by
        refine List.filter_eq_nil_iff.mpr fun e he hname => ?_
        rw [beq_iff_eq, field_of_ownError? (Option.mem_toList.mp he)] at hname
        exact hnot (List.mem_map.mpr ⟨f, hf, hname.symm⟩)
      rw [hother, List.nil_append]

/-! ## Fields do not affect each other -/

/-- The errors of an outcome that name a field. -/
def errorsOn (name : String) :
    Except (List ExpansionError) (NameMap TypedValue) → List ExpansionError
  | .ok _ => []
  | .error errors => errors.filter (·.field == name)

/-- The errors that name a field are that of its own value, if it has one. -/
theorem errorsOn_run_expandValues (hnames : (form.fields.map (·.name)).Nodup)
    (hf : f ∈ form.fields) :
    errorsOn f.name (expandValues backend teamId form values).run =
      (ownError? backend teamId values f).toList := by
  cases hout : (expandValues backend teamId form values).run with
  | ok typedValues =>
    rw [exists_run_expandValues_iff.mp ⟨typedValues, hout⟩ f hf]
    rfl
  | error errors =>
    rw [(run_expandValues_eq_error_iff.mp hout).2]
    exact filter_ownErrors hnames hf

/-- Values that agree on the fields of a form are expanded to the same. -/
theorem run_expandValues_congr (h : ∀ f ∈ form.fields, values'[f.name]? = values[f.name]?) :
    (expandValues backend teamId form values').run =
      (expandValues backend teamId form values).run := by
  have hpresent : presentFields form values' = presentFields form values :=
    List.filterMap_congr fun f hf => by rw [h f hf]
  rw [run_expandValues, run_expandValues, ownResults, ownResults, hpresent]

end Expansion

end SlashCommand
