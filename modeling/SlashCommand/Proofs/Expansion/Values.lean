import SlashCommand.Expansion.Basic
import SlashCommand.Proofs.Binding.Validation

/-!
# What expansion gives a field

Expansion asks a backend that may answer anything, and anything else the next time.  So nothing is
said here about which options a token becomes: only that each field with a raw value has a typed one
if the expansion succeeds, which is one that the field could be expanded to
(`exists_of_expandValues`), and that a typed value carries as little as the raw one or more
(`isEmpty_of_expandField`).  What one value becomes is said once, by the type of the field and the
shape of the value (`Expands`).

A backend is one in a state monad, and `CanReturn` is what a query may come to in some state of it.
-/

namespace SlashCommand

/-- A typed value carries nothing: the empty text, or an empty list. -/
def TypedValue.isEmpty : TypedValue → Bool
  | .text value => value == ""
  | .texts values => values.isEmpty
  | .options values => values.isEmpty
  | .bool _ => false
  | .option _ => false

namespace Expansion

variable {σ : Type} {α β γ : Type} {state state' : σ}

/-- The computation comes to the value from some state. -/
def CanReturn (x : StateM σ α) (a : α) : Prop := ∃ state state', x.run state = (a, state')

theorem canReturn_bind {x : StateM σ α} {f : α → StateM σ β} {b : β} (h : CanReturn (x >>= f) b) :
    ∃ a, CanReturn x a ∧ CanReturn (f a) b := by
  obtain ⟨state, state', hrun⟩ := h
  exact ⟨(x.run state).1, ⟨state, _, rfl⟩, ⟨(x.run state).2, state', hrun⟩⟩

theorem eq_of_canReturn_pure {a b : α} (h : CanReturn (pure a : StateM σ α) b) : b = a := by
  obtain ⟨_, _, hrun⟩ := h
  exact (congrArg Prod.fst hrun).symm

/-- Each member of a list has a result among the results, and the results come in its order. -/
theorem canReturn_mapM {f : α → StateM σ β} {l : List α} {results : List β} {key : α → γ}
    {keyOf : β → γ} (hkey : ∀ a b, CanReturn (f a) b → keyOf b = key a)
    (h : CanReturn (l.mapM f) results) :
    results.map keyOf = l.map key ∧ ∀ a ∈ l, ∃ b ∈ results, CanReturn (f a) b := by
  induction l generalizing results with
  | nil =>
    rw [List.mapM_nil] at h
    rw [eq_of_canReturn_pure h]
    exact ⟨rfl, fun a ha => absurd ha List.not_mem_nil⟩
  | cons a l ih =>
    rw [List.mapM_cons] at h
    obtain ⟨b, hb, hrest⟩ := canReturn_bind h
    obtain ⟨bs, hbs, hresults⟩ := canReturn_bind hrest
    rw [eq_of_canReturn_pure hresults]
    obtain ⟨hkeys, hmem⟩ := ih hbs
    refine ⟨?_, fun a' ha' => ?_⟩
    · rw [List.map_cons, List.map_cons, hkeys, hkey a b hb]
    · rcases List.mem_cons.mp ha' with rfl | ha'
      · exact ⟨b, List.mem_cons_self, hb⟩
      · obtain ⟨b', hb', hreturns⟩ := hmem a' ha'
        exact ⟨b', List.mem_cons_of_mem b hb', hreturns⟩

/-! ## One field -/

variable {backend : Backend (StateM σ)} {teamId : Option String} {field : Field} {v : Value}
  {typed : TypedValue}

/-- Resolving a list gives an option for each token. -/
theorem length_of_resolveAfter {tokens : List String} {resolved options : List SelectOption}
    (h : CanReturn (resolveAfter backend teamId field resolved tokens) (.ok options)) :
    options.length = resolved.length + tokens.length := by
  induction tokens generalizing resolved with
  | nil =>
    rw [resolveAfter] at h
    rw [Except.ok.inj (eq_of_canReturn_pure h)]
    rfl
  | cons token tokens ih =>
    rw [resolveAfter] at h
    obtain ⟨result, -, hrest⟩ := canReturn_bind h
    cases result with
    | error e =>
      cases eq_of_canReturn_pure hrest
    | ok option =>
      dsimp only at hrest
      split at hrest
      · cases eq_of_canReturn_pure hrest
      · rw [ih hrest, List.length_append, List.length_cons, List.length_nil, List.length_cons]
        omega

/-- What the value of a field is expanded to, by the type of the field and the shape of the value. -/
inductive Expands (backend : Backend (StateM σ)) (teamId : Option String) (field : Field) :
    Value → TypedValue → Prop
  | text {token : String} (htype : field.type = .text) :
      Expands backend teamId field (.scalar token) (.text token)
  | texts {tokens : List String} (htype : field.type = .text) :
      Expands backend teamId field (.list tokens) (.texts tokens)
  | bool (value : Bool) (htype : field.type = .bool) :
      Expands backend teamId field (.scalar (if value then "true" else "false")) (.bool value)
  | option {token : String} {option : SelectOption} (htext : field.type ≠ .text)
      (hbool : field.type ≠ .bool)
      (hresolved : CanReturn (resolve backend teamId field token) (.ok option)) :
      Expands backend teamId field (.scalar token) (.option option)
  | options {tokens : List String} {options : List SelectOption} (htext : field.type ≠ .text)
      (hbool : field.type ≠ .bool)
      (hresolved : CanReturn (resolveAfter backend teamId field [] tokens) (.ok options)) :
      Expands backend teamId field (.list tokens) (.options options)

theorem expands_of_expandField (h : CanReturn (expandField backend teamId field v) (.ok typed)) :
    Expands backend teamId field v typed := by
  unfold expandField at h
  split at h
  · rename_i htype
    rw [Except.ok.inj (eq_of_canReturn_pure h)]
    exact .text htype
  · rename_i htype
    rw [Except.ok.inj (eq_of_canReturn_pure h)]
    exact .texts htype
  · rename_i htype
    rw [Except.ok.inj (eq_of_canReturn_pure h)]
    exact .bool true htype
  · rename_i htype
    rw [Except.ok.inj (eq_of_canReturn_pure h)]
    exact .bool false htype
  · cases eq_of_canReturn_pure h
  · rename_i htext _ _ hbool
    obtain ⟨result, hresolved, hrest⟩ := canReturn_bind h
    have heq := eq_of_canReturn_pure hrest
    cases result with
    | error e => cases heq
    | ok option =>
      rw [Except.ok.inj heq]
      exact .option htext hbool hresolved
  · rename_i htext hbool
    obtain ⟨result, hresolved, hrest⟩ := canReturn_bind h
    have heq := eq_of_canReturn_pure hrest
    cases result with
    | error e => cases heq
    | ok options =>
      rw [Except.ok.inj heq]
      exact .options htext hbool hresolved

/-- A typed value is empty only if the raw one is, and the empty list becomes an empty value. -/
theorem isEmpty_of_expandField (h : CanReturn (expandField backend teamId field v) (.ok typed)) :
    (typed.isEmpty = true → v.isEmpty = true) ∧ (v = .list [] → typed.isEmpty = true) := by
  cases expands_of_expandField h with
  | text => exact ⟨id, nofun⟩
  | texts =>
    refine ⟨id, fun hnil => ?_⟩
    cases hnil
    rfl
  | bool | option => exact ⟨nofun, nofun⟩
  | options _ _ hresolved =>
    have hlength := length_of_resolveAfter hresolved
    rw [List.length_nil, Nat.zero_add] at hlength
    refine ⟨fun hempty => ?_, fun hnil => ?_⟩
    · rw [show _ = [] from List.isEmpty_iff.mp hempty] at hlength
      exact List.isEmpty_iff.mpr (List.eq_nil_of_length_eq_zero hlength.symm)
    · cases hnil
      exact List.isEmpty_iff.mpr (List.eq_nil_of_length_eq_zero hlength)

/-! ## All fields -/

variable {form : Form} {values : Values} {typedValues map : NameMap TypedValue} {name : String}
  {results : List (String × Except ExpansionError TypedValue)}

/-- The values among results, by name, put into a map. -/
def insertAll (map : NameMap TypedValue)
    (results : List (String × Except ExpansionError TypedValue)) : NameMap TypedValue :=
  results.foldl (fun map (name, r) =>
    match r with
    | .ok v => map.insert name v
    | .error _ => map) map

theorem getElem?_insertAll_of_notMem (h : name ∉ results.map Prod.fst) :
    (insertAll map results)[name]? = map[name]? := by
  induction results generalizing map with
  | nil => rfl
  | cons result results ih =>
    obtain ⟨name', r⟩ := result
    obtain ⟨hne, hnot⟩ := List.ne_and_not_mem_of_not_mem_cons h
    show (insertAll _ results)[name]? = _
    rw [ih hnot]
    cases r with
    | error e => rfl
    | ok v =>
      exact (Std.ExtTreeMap.getElem?_insert).trans
        (if_neg fun heq => hne (Std.compare_eq_iff_eq.mp heq).symm)

/-- Among results of different names each value is found under its own. -/
theorem getElem?_insertAll (h : (results.map Prod.fst).Nodup) (hmem : (name, .ok typed) ∈ results) :
    (insertAll map results)[name]? = some typed := by
  induction results generalizing map with
  | nil => cases hmem
  | cons result results ih =>
    obtain ⟨name', r⟩ := result
    obtain ⟨hnot, htail⟩ := List.nodup_cons.mp h
    rcases List.mem_cons.mp hmem with heq | hmem
    · cases heq
      show (insertAll (map.insert name typed) results)[name]? = _
      rw [getElem?_insertAll_of_notMem hnot]
      exact Std.ExtTreeMap.getElem?_insert_self
    · exact ih htail hmem

/-- Results that are collected without an error are values, each found under its name. -/
theorem exists_of_collect (h : collect results = .ok typedValues)
    (hnodup : (results.map Prod.fst).Nodup) {r : Except ExpansionError TypedValue}
    (hmem : (name, r) ∈ results) :
    ∃ typed, r = .ok typed ∧ typedValues[name]? = some typed := by
  unfold collect at h
  dsimp only at h
  split at h
  · rename_i hnone
    cases r with
    | error e =>
      -- an error among the results would be collected
      cases List.filterMap_eq_nil_iff.mp (List.isEmpty_iff.mp hnone) _ hmem
    | ok typed =>
      refine ⟨typed, rfl, ?_⟩
      rw [← Except.ok.inj h]
      exact getElem?_insertAll hnodup hmem
  · cases h

/-- Only the names of results are in what is collected from them. -/
theorem mem_of_collect (h : collect results = .ok typedValues)
    (hname : typedValues[name]? = some typed) : name ∈ results.map Prod.fst := by
  refine Decidable.byContradiction fun hnot => ?_
  unfold collect at h
  dsimp only at h
  split at h
  · have hnone : (insertAll ∅ results)[name]? = none := by
      rw [getElem?_insertAll_of_notMem hnot]
      exact Std.ExtTreeMap.getElem?_empty
    have hmap : insertAll ∅ results = typedValues := Except.ok.inj h
    rw [hmap, hname] at hnone
    cases hnone
  · cases h

/-- The fields of a form that have a value, with their values. -/
def presentFields (form : Form) (values : Values) : List (Field × Value) :=
  form.fields.filterMap fun f => values[f.name]?.map (f, ·)

theorem mem_presentFields_iff : (field, v) ∈ presentFields form values ↔
    field ∈ form.fields ∧ values[field.name]? = some v := by
  rw [presentFields, List.mem_filterMap]
  constructor
  · rintro ⟨f, hf, hfv⟩
    obtain ⟨v', hv', heq⟩ := Option.map_eq_some_iff.mp hfv
    cases heq
    exact ⟨hf, hv'⟩
  · rintro ⟨hfield, hv⟩
    exact ⟨field, hfield, by rw [hv]; rfl⟩

/-- In a form of distinct names, so are those of the fields that have a value. -/
theorem nodup_presentFields (hnames : (form.fields.map (·.name)).Nodup) :
    ((presentFields form values).map (·.1.name)).Nodup := by
  rw [presentFields, List.Nodup, List.pairwise_map, List.pairwise_filterMap]
  refine (List.pairwise_map.mp hnames).imp fun hne p hp q hq => ?_
  obtain ⟨_, -, rfl⟩ := Option.map_eq_some_iff.mp hp
  obtain ⟨_, -, rfl⟩ := Option.map_eq_some_iff.mp hq
  exact hne

/-- Values that are expanded are collected from a result for each field that has a value. -/
theorem exists_results_of_expandValues
    (h : CanReturn (expandValues backend teamId form values) (.ok typedValues)) :
    ∃ results, collect results = .ok typedValues ∧
      results.map Prod.fst = (presentFields form values).map (·.1.name) ∧
      ∀ p ∈ presentFields form values, ∃ r, (p.1.name, r) ∈ results ∧
        CanReturn (expandField backend teamId p.1 p.2) r := by
  unfold expandValues at h
  dsimp only at h
  obtain ⟨results, hresults, hcollect⟩ := canReturn_bind h
  have hkey (p : Field × Value) (b : String × Except ExpansionError TypedValue)
      (hb : CanReturn (do return (p.1.name, ← expandField backend teamId p.1 p.2)) b) :
      b.1 = p.1.name := by
    obtain ⟨r, -, hr⟩ := canReturn_bind hb
    rw [eq_of_canReturn_pure hr]
  obtain ⟨hkeys, hmem⟩ := canReturn_mapM hkey hresults
  refine ⟨results, (eq_of_canReturn_pure hcollect).symm, hkeys, fun p hp => ?_⟩
  obtain ⟨b, hb, hreturns⟩ := hmem p hp
  obtain ⟨r, hr, heq⟩ := canReturn_bind hreturns
  rw [eq_of_canReturn_pure heq] at hb
  exact ⟨r, hb, hr⟩

/-- If the values of a form without a defect are expanded, each field with a raw value has a typed
one that it could be expanded to. -/
theorem exists_of_expandValues (hform : form.defect? = none)
    (h : CanReturn (expandValues backend teamId form values) (.ok typedValues))
    (hfield : field ∈ form.fields) (hv : values[field.name]? = some v) :
    ∃ typed, typedValues[field.name]? = some typed ∧
      CanReturn (expandField backend teamId field v) (.ok typed) := by
  obtain ⟨results, hcollect, hkeys, hmem⟩ := exists_results_of_expandValues h
  have hnodup : (results.map Prod.fst).Nodup := by
    rw [hkeys]
    exact nodup_presentFields (Form.nodup_names hform)
  obtain ⟨r, hb, hr⟩ := hmem (field, v) (mem_presentFields_iff.mpr ⟨hfield, hv⟩)
  obtain ⟨typed, rfl, htyped⟩ := exists_of_collect hcollect hnodup hb
  exact ⟨typed, htyped, hr⟩

/-- Only fields of the form that have a raw value have a typed one. -/
theorem exists_field_of_expandValues
    (h : CanReturn (expandValues backend teamId form values) (.ok typedValues))
    (hname : typedValues[name]? = some typed) :
    ∃ f ∈ form.fields, f.name = name ∧ ∃ v, values[name]? = some v := by
  obtain ⟨results, hcollect, hkeys, -⟩ := exists_results_of_expandValues h
  have hmem := mem_of_collect hcollect hname
  rw [hkeys] at hmem
  obtain ⟨⟨f, v⟩, hp, rfl⟩ := List.mem_map.mp hmem
  obtain ⟨hf, hv⟩ := mem_presentFields_iff.mp hp
  exact ⟨f, hf, rfl, v, hv⟩

end Expansion

end SlashCommand
