import SlashCommand.Proofs.Scan.Path
import SlashCommand.Proofs.Scan.Values

/-!
# The scanner conforms to the grammar

For a form without boolean fields, the second phase of a scan accepts the language of
`SlashCommand.Proofs.Scan.Grammar` and computes what its derivations assign.

* `outcome_of_parametersText`: a text that derives has the outcome that its assignments leave
  behind.  The proof goes along the derivation.
* `exists_parametersText`: a text that has an outcome derives.  The proof is by induction on the
  length of the text, since every parameter takes some of it.

Boolean fields are left out because their values may be: what follows such a flag is a value or the
next parameter, according to what it says.
-/

namespace SlashCommand

namespace Scan

variable {form : Form} {field : Field} {i k : Nat} {values : Values} {s : Scan}
  {text r w name : List Char}

/-! ## Looking up a field -/

/-- A field that is found has its place in the form. -/
theorem exists_findIdx? {p : Field → Bool} (h : form.fields.find? p = some field) :
    ∃ i, form.fields.findIdx? p = some i ∧ form.fields[i]? = some field := by
  rw [List.find?_eq_bind_findIdx?_getElem?] at h
  exact Option.bind_eq_some_iff.mp h

theorem findIdx?_eq_none_of_find? {p : Field → Bool} (h : form.fields.find? p = none) :
    form.fields.findIdx? p = none := by
  rw [List.findIdx?_eq_none_iff]
  intro f hf
  simpa using List.find?_eq_none.mp h f hf

/-! ## Between the name of a flag and its value -/

/-- Blanks and one equals sign are passed. -/
theorem outcome_separator {c : Char} {equalsSeen : Bool} (hfield : form.fields[i]? = some field)
    (hchars : ∀ d ∈ w, ¬ IsNameChar d) (hequals : w.count '=' + equalsSeen.toNat ≤ 1)
    (hc : IsNameChar c) (hs : Stands (.value i (.separator equalsSeen)) k values (w ++ c :: r) s) :
    ∃ t, Stands (.value i .start) k values (c :: r) t ∧ outcome form s = outcome form t := by
  induction w generalizing s equalsSeen with
  | nil =>
    obtain ⟨hne, hblank⟩ := not_or.mp hc
    have hnext : parameterStep form .execute s = .next (s.markToken.goto (.value i .start)) :=
      step_separator_cons hfield hs.state_eq hs.ahead_eq hne (by simpa using hblank)
    exact ⟨_, hs.markToken.goto (.value i .start), outcome_of_next hnext⟩
  | cons d w ih =>
    have htail : ∀ e ∈ w, ¬ IsNameChar e := fun e he => hchars e (List.mem_cons_of_mem d he)
    rcases Decidable.of_not_not (hchars d List.mem_cons_self) with rfl | hblank
    · -- the equals sign
      rw [List.count_cons_self] at hequals
      cases equalsSeen with
      | true => exact absurd hequals (by simp)
      | false =>
        have hnext : parameterStep form .execute s =
            .next (s.markToken.advance.goto (.value i (.separator true))) :=
          step_separator_equals hfield hs.state_eq hs.ahead_eq
        obtain ⟨t, ht, hout⟩ := ih htail (by simpa using hequals)
          (hs.markToken.advance.goto (.value i (.separator true)))
        exact ⟨t, ht, (outcome_of_next hnext).trans hout⟩
    · have hnext : parameterStep form .execute s = .next s.markToken.advance :=
        step_separator_blank hfield hs.state_eq hs.ahead_eq hblank
      have hcount : w.count '=' ≤ (d :: w).count '=' := List.count_le_count_cons
      obtain ⟨t, ht, hout⟩ := ih htail (by omega) hs.markToken.advance
      exact ⟨t, ht, (outcome_of_next hnext).trans hout⟩

/-- A run behind the name of a flag that has an outcome passes blanks and one equals sign. -/
theorem exists_separator {equalsSeen : Bool} (hfield : form.fields[i]? = some field)
    (hbool : field.type ≠ .bool) (hs : Stands (.value i (.separator equalsSeen)) k values text s)
    (hout : outcome form s ≠ none) :
    ∃ w c r, text = w ++ c :: r ∧ (∀ d ∈ w, ¬ IsNameChar d) ∧
      w.count '=' + equalsSeen.toNat ≤ 1 ∧ IsNameChar c := by
  induction text generalizing s equalsSeen with
  | nil =>
    have hfail := readForm_separator_nil hfield hbool hs.state_eq hs.ahead_eq
    exact absurd (outcome_of_failed hfail) hout
  | cons c text ih =>
    by_cases hc : IsNameChar c
    · refine ⟨[], c, text, rfl, fun _ h => absurd h List.not_mem_nil, ?_, hc⟩
      cases equalsSeen with
      | true => exact Nat.le_refl 1
      | false => exact Nat.zero_le 1
    · have hcons (w : List Char) (hw : ∀ d ∈ w, ¬ IsNameChar d) : ∀ d ∈ c :: w, ¬ IsNameChar d := by
        intro d hd
        rcases List.mem_cons.mp hd with rfl | hd
        · exact hc
        · exact hw d hd
      rcases Decidable.of_not_not hc with rfl | hblank
      · cases equalsSeen with
        | true =>
          have hfail : parameterStep form .execute s = .fail s.markToken .multipleEquals :=
            step_separator_equals hfield hs.state_eq hs.ahead_eq
          exact absurd (outcome_of_fail hfail) hout
        | false =>
          have hnext : parameterStep form .execute s =
              .next (s.markToken.advance.goto (.value i (.separator true))) :=
            step_separator_equals hfield hs.state_eq hs.ahead_eq
          obtain ⟨w, d, r, htext, hw, hcount, hd⟩ :=
            ih (hs.markToken.advance.goto (.value i (.separator true)))
              (outcome_of_next hnext ▸ hout)
          refine ⟨'=' :: w, d, r, by rw [htext]; rfl, hcons w hw, ?_, hd⟩
          rw [List.count_cons_self]
          exact hcount
      · have hnext : parameterStep form .execute s = .next s.markToken.advance :=
          step_separator_blank hfield hs.state_eq hs.ahead_eq hblank
        obtain ⟨w, d, r, htext, hw, hcount, hd⟩ :=
          ih hs.markToken.advance (outcome_of_next hnext ▸ hout)
        refine ⟨c :: w, d, r, by rw [htext]; rfl, hcons w hw, ?_, hd⟩
        have hne : c ≠ '=' := by
          rintro rfl
          cases hblank
        rwa [List.count_cons_of_ne hne]

/-! ## Flags -/

/-- The dashes in front of a flag are read. -/
theorem readForm_dashes {mode : ScanMode} {dashes : List Char} (h : LeadingDashes dashes r)
    (hs : Stands .startParameter k values (dashes ++ r) s) :
    ∃ t, Stands .flagName k values r t ∧ t.token = "" ∧
      readForm form mode s = readForm form mode t := by
  have hfirst {r : List Char} (hs : Stands .startParameter k values ('-' :: r) s) :
      readForm form mode s = readForm form mode (s.advance.goto .flagDash) :=
    readForm_of_next (step_startParameter_dash hs.state_eq hs.ahead_eq)
  rcases h with rfl | ⟨rfl, hr⟩
  · have hdash := hs.advance.goto .flagDash
    have hsecond : parameterStep form mode (s.advance.goto .flagDash) =
        .next ((s.advance.goto .flagDash).advance.beginToken.goto .flagName) :=
      step_flagDash_dash hdash.state_eq hdash.ahead_eq
    refine ⟨_, hdash.advance.beginToken.goto .flagName, rfl, ?_⟩
    rw [hfirst hs, readForm_of_next hsecond]
  · have hdash := hs.advance.goto .flagDash
    have hsecond : parameterStep form mode (s.advance.goto .flagDash) =
        .next ((s.advance.goto .flagDash).beginToken.goto .flagName) := by
      refine step_flagDash_other hdash.state_eq ?_
      rw [hdash.ahead_eq]
      exact hr
    refine ⟨_, hdash.beginToken.goto .flagName, rfl, ?_⟩
    rw [hfirst hs, readForm_of_next hsecond]

theorem outcome_dashes {dashes : List Char} (h : LeadingDashes dashes r)
    (hs : Stands .startParameter k values (dashes ++ r) s) :
    ∃ t, Stands .flagName k values r t ∧ t.token = "" ∧ outcome form s = outcome form t := by
  obtain ⟨t, ht, htoken, hread⟩ : ∃ t, Stands .flagName k values r t ∧ t.token = "" ∧
      readForm form .execute s = readForm form .execute t := readForm_dashes h hs
  exact ⟨t, ht, htoken, outcome_congr hread⟩

/-- A text behind a dash begins with at most one more. -/
theorem exists_leadingDashes (text : List Char) :
    ∃ dashes r, '-' :: text = dashes ++ r ∧ LeadingDashes dashes r := by
  by_cases h : text.head? = some '-'
  · obtain ⟨r, rfl⟩ := List.head?_eq_some_iff.mp h
    exact ⟨['-', '-'], r, rfl, .inl rfl⟩
  · exact ⟨['-'], text, rfl, .inr ⟨rfl, h⟩⟩

/-- The name of a flag is read up to where it ends. -/
theorem readForm_flagName {mode : ScanMode} (hname : ∀ c ∈ name, IsNameChar c)
    (hs : Stands .flagName k values (name ++ r) s) (htoken : s.token = "") :
    ∃ t, Stands .flagName k values r t ∧ t.token = String.ofList name ∧
      readForm form mode s = readForm form mode t := by
  refine ⟨s.pushAll name, hs.pushAll, ?_, ?_⟩
  · show s.token ++ String.ofList name = _
    rw [htoken, String.empty_append]
  · exact run_pushAll (fun t c r' hstate hahead hc => step_flagName_cons hstate hahead hc)
      hs.state_eq hs.ahead_eq hname

/-- The field that has the name is found. -/
theorem flagEndStep_of_flag? (hfield : form.flag? name = some field)
    (hs : Stands .flagName k values r s) (htoken : s.token = String.ofList name) :
    ∃ i t, form.fields[i]? = some field ∧ Stands (.value i (.separator false)) k values r t ∧
      flagEndStep form s = .next t := by
  obtain ⟨i, hi, hget⟩ := exists_findIdx? hfield
  refine ⟨i, s.clearToken.goto (.value i (.separator false)), hget, ?_, ?_⟩
  · exact ⟨rfl, hs.positionals_eq, hs.values_eq, hs.ahead_eq⟩
  · rw [flagEndStep, htoken, hi]

/-- The name of a flag is read and looked up. -/
theorem outcome_flagName (hname : ∀ c ∈ name, IsNameChar c) (hr : ∀ c ∈ r.head?, ¬ IsNameChar c)
    (hs : Stands .flagName k values (name ++ r) s) (htoken : s.token = "") :
    (form.flag? name = none → outcome form s = none) ∧
      ∀ field, form.flag? name = some field → ∃ i t, form.fields[i]? = some field ∧
        Stands (.value i (.separator false)) k values r t ∧ outcome form s = outcome form t := by
  obtain ⟨u, hu, hutoken, hread⟩ : ∃ u, Stands .flagName k values r u ∧
      u.token = String.ofList name ∧ readForm form .execute s = readForm form .execute u :=
    readForm_flagName hname hs htoken
  have hstep : parameterStep form .execute u = flagEndStep form u := by
    refine step_flagName_end hu.state_eq ?_
    rw [hu.ahead_eq]
    cases r with
    | nil => exact .inl ⟨rfl, rfl⟩
    | cons c r => exact .inr ⟨c, r, rfl, hr c rfl⟩
  refine ⟨fun hnone => ?_, fun field hfield => ?_⟩
  · rw [flagEndStep, hutoken, findIdx?_eq_none_of_find? hnone] at hstep
    exact (outcome_congr hread).trans (outcome_of_fail hstep)
  · obtain ⟨i, t, hget, ht, hnext⟩ := flagEndStep_of_flag? hfield hu hutoken
    exact ⟨i, t, hget, ht, (outcome_congr hread).trans (outcome_of_next (hstep.trans hnext))⟩

/-! ## Parameters -/

variable {k' : Nat} {a : Assignment}

/-- A flag is read with its value. -/
theorem outcome_flag {dashes separator : List Char} {value : Value}
    (hdashes : LeadingDashes dashes (name ++ (separator ++ text)))
    (hname : ∀ c ∈ name, IsNameChar c) (hfield : form.flag? name = some field)
    (hne : separator ≠ []) (hseparator : IsSeparator separator)
    (htext : ∀ c ∈ text.head?, IsNameChar c) (hvalue : ValueText field text value)
    (hr : StartsBlank r)
    (hs : Stands .startParameter k values (dashes ++ (name ++ (separator ++ text)) ++ r) s) :
    ∃ t, Stands .parameterSeparator k (values.insert field.name value) r t ∧
      outcome form s = outcome form t := by
  obtain ⟨d, separator', rfl⟩ := List.exists_cons_of_ne_nil hne
  obtain ⟨c, text', rfl, -⟩ := hvalue.exists_cons
  have hlead : LeadingDashes dashes (name ++ (d :: separator' ++ c :: text') ++ r) :=
    (leadingDashes_append (by simp)).mpr hdashes
  rw [List.append_assoc] at hs
  obtain ⟨t, ht, htoken, hout⟩ := outcome_dashes hlead hs
  have hahead : name ++ (d :: separator' ++ c :: text') ++ r =
      name ++ (d :: separator' ++ c :: (text' ++ r)) := by simp
  rw [hahead] at ht
  have hend : ∀ e ∈ (d :: separator' ++ c :: (text' ++ r)).head?, ¬ IsNameChar e := by
    intro e he
    exact hseparator.chars e (Option.some.inj he ▸ List.mem_cons_self)
  obtain ⟨i, u, hget, hu, hread⟩ := (outcome_flagName hname hend ht htoken).2 field hfield
  obtain ⟨v, hv, hpass⟩ := outcome_separator hget hseparator.chars
    (by simpa using hseparator.equals) (htext c rfl) hu
  obtain ⟨x, hx, hclose⟩ := outcome_value hget hvalue hr hv
  exact ⟨x, hx, ((hout.trans hread).trans hpass).trans hclose⟩

/-- A parameter without a dash is read by the field at its position. -/
theorem outcome_positional {c : Char} (hc : c ≠ '-')
    (hfield : form.positional? (k + 1 : Nat) = some field)
    (hs : Stands .startParameter k values (c :: r) s) :
    ∃ i t, form.fields[i]? = some field ∧ Stands (.value i .start) (k + 1) values (c :: r) t ∧
      outcome form s = outcome form t := by
  obtain ⟨i, hi, hget⟩ := exists_findIdx? hfield
  have hnext : parameterStep form .execute s =
      .next (s.countPositional.goto (.value i .start)) := by
    rw [step_startParameter_cons hs.state_eq hs.ahead_eq hc, hs.positionals_eq, hi]
  have hpositionals : (s.countPositional.goto (.value i .start)).positionals = k + 1 := by
    show s.positionals + 1 = k + 1
    rw [hs.positionals_eq]
  exact ⟨i, _, hget, ⟨rfl, hpositionals, hs.values_eq, hs.ahead_eq⟩, outcome_of_next hnext⟩

/-- A parameter without a position gives the rest of the text to the field that takes it. -/
theorem outcome_rest {c : Char} (hc : c ≠ '-') (hnone : form.positional? (k + 1 : Nat) = none)
    (hs : Stands .startParameter k values (c :: r) s) :
    outcome form s = (form.openRest? values).map fun field =>
      values.insert field.name (.ofToken field.multiselect (String.ofList (c :: r))) := by
  have hposition : form.fields.findIdx? (·.position == ((k + 1 : Nat) : Int)) = none :=
    findIdx?_eq_none_of_find? hnone
  cases hrest : form.openRest? values with
  | none =>
    have hfail : parameterStep form .execute s =
        .fail s.countPositional (.noArgumentPosition (k + 1)) := by
      rw [step_startParameter_cons hs.state_eq hs.ahead_eq hc, hs.positionals_eq, hposition,
        hs.values_eq, findIdx?_eq_none_of_find? hrest]
    exact outcome_of_fail hfail
  | some field =>
    obtain ⟨i, hi, hget⟩ := exists_findIdx? hrest
    let u := s.countPositional.beginToken.goto (.rest i)
    have hnext : parameterStep form .execute s = .next u := by
      rw [step_startParameter_cons hs.state_eq hs.ahead_eq hc, hs.positionals_eq, hposition,
        hs.values_eq, hi]
    have hahead : u.ahead = c :: r := hs.ahead_eq
    have hvalues : u.values = values := hs.values_eq
    rw [outcome_of_next hnext, outcome_of_stop (step_rest hget rfl) rfl]
    show some (u.values.insert _ (.ofToken _ (String.ofList u.ahead))) = _
    rw [hvalues, hahead]
    rfl

/-- A parameter is read and assigns what it says. -/
theorem outcome_parameter (h : ParameterText form k text k' a) (hr : StartsBlank r)
    (hs : Stands .startParameter k values (text ++ r) s) :
    ∃ t, Stands .parameterSeparator k' (values.insert a.field a.value) r t ∧
      outcome form s = outcome form t := by
  cases h with
  | flag hdashes hname hfield hne hseparator htext hvalue =>
    exact outcome_flag hdashes hname hfield hne hseparator htext hvalue hr hs
  | positional hdash hfield hvalue =>
    obtain ⟨c, text', rfl, -⟩ := hvalue.exists_cons
    have hc : c ≠ '-' := by
      rintro rfl
      exact hdash rfl
    obtain ⟨i, t, hget, ht, hout⟩ := outcome_positional hc hfield hs
    obtain ⟨u, hu, hclose⟩ := outcome_value hget hvalue hr ht
    exact ⟨u, hu, hout.trans hclose⟩

/-- A run in front of a dash that has an outcome reads a flag with its value. -/
theorem exists_flag (hform : ∀ f ∈ form.fields, f.type ≠ .bool)
    (hs : Stands .startParameter k values ('-' :: text) s) (hout : outcome form s ≠ none) :
    ∃ w r a, '-' :: text = w ++ r ∧ StartsBlank r ∧ ParameterText form k w k a := by
  obtain ⟨dashes, rest, hdash, hlead⟩ := exists_leadingDashes text
  rw [hdash] at hs ⊢
  obtain ⟨t, ht, htoken, hread⟩ := outcome_dashes hlead hs
  rw [hread] at hout
  -- the name goes up to a character that is none of a name
  obtain ⟨name, r, rfl, hname, hr⟩ : ∃ name r, rest = name ++ r ∧ (∀ c ∈ name, IsNameChar c) ∧
      ∀ c ∈ r.head?, ¬ IsNameChar c := exists_run IsNameChar rest
  cases hfield : form.flag? name with
  | none => exact absurd ((outcome_flagName hname hr ht htoken).1 hfield) hout
  | some field =>
    obtain ⟨i, u, hget, hu, hlookup⟩ :=
      (outcome_flagName hname hr ht htoken).2 field hfield
    have hbool : field.type ≠ .bool := hform field (List.mem_of_getElem? hget)
    rw [hlookup] at hout
    obtain ⟨separator, c, r', rfl, hchars, hequals, hc⟩ := exists_separator hget hbool hu hout
    obtain ⟨v, hv, hpass⟩ := outcome_separator hget hchars hequals hc hu
    rw [hpass] at hout
    obtain ⟨w, r, value, hw, hblank, hvalue⟩ := exists_value hget hbool hv hout
    have hne : separator ≠ [] := by
      rintro rfl
      exact hr c rfl hc
    have hbehind : name ++ (separator ++ c :: r') = name ++ (separator ++ w) ++ r := by
      rw [hw]
      simp
    rw [hbehind] at hlead ⊢
    have hhead : ∀ d ∈ w.head?, IsNameChar d := by
      obtain ⟨d, w', rfl, -⟩ := hvalue.exists_cons
      intro e he
      obtain ⟨rfl, -⟩ := List.cons.inj hw
      rwa [← Option.some.inj he]
    have hdashes : LeadingDashes dashes (name ++ (separator ++ w)) :=
      (leadingDashes_append (by simp [hne])).mp hlead
    refine ⟨dashes ++ (name ++ (separator ++ w)), r, ⟨field.name, value⟩, by simp, hblank, ?_⟩
    exact .flag hdashes hname hfield hne ⟨hchars, by simpa using hequals⟩ hhead hvalue

/-! ## All parameters -/

/-- The blanks between parameters are passed. -/
theorem outcome_gap {gap rest : List Char} (hgap : IsGap gap) (hrest : StartsPlain rest)
    (hs : Stands .parameterSeparator k values (gap ++ rest) s) :
    ∃ t, Stands .startParameter k values rest t ∧ outcome form s = outcome form t := by
  obtain ⟨t, ht, hpass⟩ : ∃ t, Stands .parameterSeparator k values rest t ∧
      outcome form s = outcome form t := by
    refine outcome_passes ?_ hs hgap
    intro t c r ht hc
    exact ⟨_, ht.markToken.advance, step_parameterSeparator_blank ht.state_eq ht.ahead_eq hc⟩
  have hstart := ht.markToken.goto .startParameter
  refine ⟨_, hstart, hpass.trans ?_⟩
  cases rest with
  | nil => rw [outcome_parameterSeparator_nil ht, outcome_startParameter_nil hstart]
  | cons c r =>
    exact outcome_of_next (step_parameterSeparator_cons ht.state_eq ht.ahead_eq (hrest c rfl))

/-- A parameter and the blanks behind it are read, and the next parameter stands ahead. -/
theorem outcome_next {gap rest : List Char} (h : ParameterText form k text k' a) (hgap : IsGap gap)
    (hnil : gap = [] → rest = []) (hrest : StartsPlain rest)
    (hs : Stands .startParameter k values (text ++ (gap ++ rest)) s) :
    ∃ t, Stands .startParameter k' (values.insert a.field a.value) rest t ∧
      outcome form s = outcome form t := by
  obtain ⟨t, ht, hread⟩ := outcome_parameter h (startsBlank_append hgap hnil) hs
  obtain ⟨u, hu, hpass⟩ : ∃ u, Stands .startParameter k' (values.insert a.field a.value) rest u ∧
      outcome form t = outcome form u := outcome_gap hgap hrest ht
  exact ⟨u, hu, hread.trans hpass⟩

/-- A text that derives has the outcome that its assignments leave behind. -/
theorem outcome_of_parametersText {assignments : List Assignment}
    (h : ParametersText form k values text assignments)
    (hs : Stands .startParameter k values text s) :
    outcome form s = some (applyAll values assignments) := by
  induction h generalizing s with
  | none => exact outcome_startParameter_nil hs
  | more hparameter hgap hnil hrest _ ih =>
    obtain ⟨t, ht, hout⟩ := outcome_next hparameter hgap hnil hrest hs
    rw [hout, ih ht]
    rfl
  | rest hne hdash hnone hrest =>
    obtain ⟨c, r, rfl⟩ := List.exists_cons_of_ne_nil hne
    have hc : c ≠ '-' := by
      rintro rfl
      exact hdash rfl
    rw [outcome_rest hc hnone hs, hrest]
    rfl

/-- A run in front of a parameter that has an outcome reads it, or gives all that is left to the
field that takes the rest of the line. -/
theorem exists_parameter {c : Char} (hform : ∀ f ∈ form.fields, f.type ≠ .bool)
    (hs : Stands .startParameter k values (c :: r) s) (hout : outcome form s ≠ none) :
    (∃ w r' k' a, c :: r = w ++ r' ∧ StartsBlank r' ∧ ParameterText form k w k' a) ∨
      ∃ assignments, ParametersText form k values (c :: r) assignments := by
  by_cases hc : c = '-'
  · subst hc
    obtain ⟨w, r', a, htext, hblank, hparameter⟩ := exists_flag hform hs hout
    exact .inl ⟨w, r', k, a, htext, hblank, hparameter⟩
  · have hdash : (c :: r).head? ≠ some '-' := fun h => hc (Option.some.inj h)
    cases hposition : form.positional? (k + 1 : Nat) with
    | some field =>
      obtain ⟨i, t, hget, ht, hread⟩ := outcome_positional hc hposition hs
      have hbool : field.type ≠ .bool := hform field (List.mem_of_getElem? hget)
      obtain ⟨w, r', value, htext, hblank, hvalue⟩ := exists_value hget hbool ht (hread ▸ hout)
      have hwdash : w.head? ≠ some '-' := by
        obtain ⟨d, w', rfl, -⟩ := hvalue.exists_cons
        obtain ⟨rfl, -⟩ := List.cons.inj htext
        exact hdash
      exact .inl ⟨w, r', k + 1, _, htext, hblank, .positional hwdash hposition hvalue⟩
    | none =>
      rw [outcome_rest hc hposition hs] at hout
      cases hrest : form.openRest? values with
      | none =>
        rw [hrest] at hout
        exact absurd rfl hout
      | some field => exact .inr ⟨_, .rest (List.cons_ne_nil c r) hdash hposition hrest⟩

/-- A text that has an outcome derives. -/
theorem exists_parametersText (hform : ∀ f ∈ form.fields, f.type ≠ .bool)
    (hs : Stands .startParameter k values text s) (hout : outcome form s ≠ none) :
    ∃ assignments, ParametersText form k values text assignments := by
  induction hn : text.length using Nat.strongRecOn generalizing s k values text with
  | ind n ih =>
    cases text with
    | nil => exact ⟨[], .none⟩
    | cons c r =>
      rcases exists_parameter hform hs hout with ⟨w, r', k', a, htext, hblank, hparameter⟩ | hrest
      · obtain ⟨gap, rest, rfl, hgap, hplain⟩ := exists_gap r'
        have hnil : gap = [] → rest = [] := by
          rintro rfl
          exact eq_nil_of_startsBlank hblank hplain
        rw [htext] at hs
        obtain ⟨t, ht, hread⟩ := outcome_next hparameter hgap hnil hplain hs
        have hlt : rest.length < n := by
          have hlength := congrArg List.length htext
          have hpos := List.length_pos_iff.mpr hparameter.ne_nil
          rw [List.length_append, List.length_append] at hlength
          omega
        obtain ⟨assignments, hmore⟩ := ih rest.length hlt ht (hread ▸ hout) rfl
        rw [htext]
        exact ⟨a :: assignments, .more hparameter hgap hnil hplain hmore⟩
      · exact hrest

/-! ## Matched commands -/

variable {command : String} {bindings : List Binding} {mode : ScanMode}

/-- A matched scan stands in front of its parameters, with no values yet. -/
theorem stands_matchBinding (form : Form) (command : String) (bindings : List Binding)
    (mode : ScanMode) :
    let m := (ofText command).matchBinding bindings mode
    Stands .startParameter 0 ∅ (command.toList.drop m.tokenStart) (m.withForm form).rewind := by
  intro m
  have hinput : SameInput (ofText command) m := sameInput_matchBinding _ bindings mode
  refine ⟨rfl, hinput.positionals, hinput.values, ?_⟩
  show m.text.drop m.tokenStart = _
  rw [hinput.text]
  rfl

theorem outcome_matchBinding (form : Form)
    (hmatch : ((ofText command).matchBinding bindings mode).isFailed = false) :
    let m := (ofText command).matchBinding bindings mode
    let e := (m.withForm form).parseForm .execute
    outcome form (m.withForm form).rewind = if e.isFailed then none else some e.values := by
  intro m e
  have he : e = readForm form .execute (m.withForm form).rewind := by
    show (m.withForm form).parseForm .execute = _
    rw [parseForm_withForm, hmatch]
    rfl
  rw [he]
  rfl

/-- A matched command whose parameters derive is executed without an error, and its values are what
the assignments of the derivation leave behind. -/
theorem parseForm_of_parametersText {assignments : List Assignment}
    (hmatch : ((ofText command).matchBinding bindings mode).isFailed = false) :
    let m := (ofText command).matchBinding bindings mode
    let e := (m.withForm form).parseForm .execute
    ParametersText form 0 ∅ (command.toList.drop m.tokenStart) assignments →
      e.isFailed = false ∧ e.values = applyAll ∅ assignments := by
  intro m e h
  have houtcome : (if e.isFailed then none else some e.values) = some (applyAll ∅ assignments) :=
    (outcome_matchBinding form hmatch).symm.trans
      (outcome_of_parametersText h (stands_matchBinding form command bindings mode))
  cases hfailed : e.isFailed with
  | true =>
    rw [hfailed] at houtcome
    cases houtcome
  | false =>
    rw [hfailed] at houtcome
    exact ⟨rfl, Option.some.inj houtcome⟩

/-- **Grammar conformance.**  For a form without boolean fields, and a command matched in either
mode, the parameters are read without an error exactly if they derive, and then the values are what
the assignments of the derivation leave behind. -/
theorem parseForm_conforms (hform : ∀ f ∈ form.fields, f.type ≠ .bool) (command : String)
    (bindings : List Binding) (mode : ScanMode)
    (hmatch : ((ofText command).matchBinding bindings mode).isFailed = false) :
    let m := (ofText command).matchBinding bindings mode
    let e := (m.withForm form).parseForm .execute
    let text := command.toList.drop m.tokenStart
    (e.isFailed = false ↔ ∃ assignments, ParametersText form 0 ∅ text assignments) ∧
      ∀ assignments, ParametersText form 0 ∅ text assignments →
        e.values = applyAll ∅ assignments := by
  intro m e text
  refine ⟨⟨fun hfailed => ?_, ?_⟩, fun assignments h => (parseForm_of_parametersText hmatch h).2⟩
  · refine exists_parametersText hform (stands_matchBinding form command bindings mode) ?_
    have houtcome : outcome form (m.withForm form).rewind =
        if e.isFailed then none else some e.values := outcome_matchBinding form hmatch
    rw [houtcome, hfailed]
    exact Option.some_ne_none _
  · rintro ⟨assignments, h⟩
    exact (parseForm_of_parametersText hmatch h).1

/-- A command with a value by position and a list by flag. -/
theorem parseForm_conforms_issue :
    let form : Form := { fields :=
      [{ name := "summary", position := 1 }, { name := "labels", multiselect := true }] }
    let command := "/issue \"fix it\" --Labels=[ui, ux]"
    let m := (ofText command).matchBinding [{ label := "issue" }] .execute
    let e := (m.withForm form).parseForm .execute
    (∀ f ∈ form.fields, f.type ≠ .bool) ∧ m.isFailed = false ∧ e.isFailed = false ∧
      e.values = applyAll ∅
        [⟨"summary", .scalar "fix it"⟩, ⟨"labels", .list ["ui", "ux"]⟩] := by
  intro form command m e
  have hform : ∀ f ∈ form.fields, f.type ≠ .bool := by decide
  let summary := "\"fix it\"".toList
  let labels := "--Labels=[ui, ux]".toList
  let rest := summary ++ ([' '] ++ (labels ++ ([] ++ [])))
  obtain ⟨hmatch, -, hdrop⟩ : m.isFailed = false ∧ m.binding = some { label := "issue" } ∧
      command.toList.drop m.tokenStart = rest := by
    have hfound : [({ label := "issue" } : Binding)].find?
        (fun b => Text.lowercase b.label == Text.lowercase "issue") = some { label := "issue" } :=
      List.find?_cons_of_pos (by decide)
    have htext : command.toList = '/' :: ("issue".toList ++ ([' '] ++ rest)) := by decide
    have hspelled : Spelled rest ["issue"] ("issue".toList ++ ([' '] ++ rest)) :=
      .cons (by decide) (by decide) nofun (by decide) (by decide) .nil
    exact matchBinding_of_spelled htext hspelled (.cons hfound .nil) rfl rfl rfl
  have hsummary : ParameterText form 0 summary 1 ⟨"summary", .scalar "fix it"⟩ := by
    have hquoted : QuotedText .double "fix it".toList "fix it".toList := by
      repeat refine .plain (by decide) (by decide) ?_
      exact .nil
    have hvalue : ValueText form.fields[0] summary (.scalar "fix it") :=
      .token (.quoted (.mk (List.cons_ne_nil _ _) hquoted)) (fun h => absurd h (by decide))
    exact .positional (by decide) rfl hvalue
  have hlabels : ParameterText form 1 labels 1 ⟨"labels", .list ["ui", "ux"]⟩ := by
    have hlast : ElementsText ("ux".toList ++ ([] ++ [']'])) ["ux"] :=
      .last (.bare (by decide) (by decide)) nofun
    have helements : ElementsText ("ui".toList ++ ([] ++ ',' :: ([' '] ++ "ux]".toList)))
        ["ui", "ux"] :=
      .more (.bare (by decide) (by decide)) nofun (by decide) hlast
    have hlist : ListText ([] ++ "ui, ux]".toList) ["ui", "ux"] := .elements nofun helements
    have hvalue : ValueText form.fields[1] "[ui, ux]".toList (.list ["ui", "ux"]) := .list rfl hlist
    have hname : ∀ c ∈ "Labels".toList, IsNameChar c := by decide
    have hfield : form.flag? "Labels".toList = some form.fields[1] := by decide
    have hseparator : IsSeparator ['='] := ⟨by decide, by decide⟩
    exact .flag (.inl rfl) hname hfield (by decide) hseparator (by decide) hvalue
  have hderived : ParametersText form 0 ∅ rest
      [⟨"summary", .scalar "fix it"⟩, ⟨"labels", .list ["ui", "ux"]⟩] :=
    .more hsummary (by decide) nofun (by decide) (.more hlabels nofun (fun _ => rfl) nofun .none)
  obtain ⟨hderives, hvalues⟩ :=
    parseForm_conforms hform command [{ label := "issue" }] .execute hmatch
  exact ⟨hform, hmatch, hderives.mpr ⟨_, hdrop ▸ hderived⟩, hvalues _ (hdrop ▸ hderived)⟩

end Scan

end SlashCommand
