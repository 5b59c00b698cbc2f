import SlashCommand.Proofs.Scan.Lists

/-!
# Reading a value

A scan in front of a value leads behind it, where the field has the value (`outcome_value`), and a
scan that has an outcome and stands where a value is expected has one in front of it
(`exists_value`).  Both go through the shapes of a value: bare tokens, quotations, and lists from
element to element.

A value and a list end in different states, but both with the separator behind a parameter or with
the end of the text.  At the end of the text the separator is passed without a step that matters, so
that everything is led to the state `parameterSeparator`.
-/

namespace SlashCommand

namespace Scan

variable {form : Form} {field : Field} {i k : Nat} {values : Values} {s t : Scan}
  {text r token w : List Char} {state : ScanState}

/-! ## Behind a value -/

/-- A complete value is given to the field. -/
theorem outcome_valueEnd {quoted : Bool}
    (hstep : parameterStep form .execute s = valueEndStep .execute field quoted s)
    (hs : Stands state k values r s) (hstate : state.isFailed = false) (hr : StartsBlank r)
    (hbool : field.type = .bool → acceptsBool .execute s.token = true)
    (hne : quoted = true ∨ s.token ≠ "") :
    ∃ t, Stands .parameterSeparator k
        (values.insert field.name (.ofToken field.multiselect s.token)) r t ∧
      outcome form s = outcome form t := by
  have hblank : StartsBlank s.ahead := by
    rw [hs.ahead_eq]
    exact hr
  have hclosed : Stands .parameterSeparator k
      (values.insert field.name (.ofToken field.multiselect s.token)) r
      ((s.closeValue field).goto .parameterSeparator) := by
    refine ⟨rfl, hs.positionals_eq, ?_, hs.ahead_eq⟩
    rw [← hs.values_eq]
    rfl
  refine ⟨_, hclosed, ?_⟩
  rw [valueEndStep_execute_of_end hblank hbool hne] at hstep
  by_cases hend : s.ahead = []
  · rw [if_pos hend] at hstep
    have hnil : r = [] := hs.ahead_eq.symm.trans hend
    subst hnil
    have hfailed : (s.closeValue field).isFailed = false := hs.isFailed_eq.trans hstate
    rw [outcome_of_stop hstep hfailed, outcome_parameterSeparator_nil hclosed]
    exact congrArg some hclosed.values_eq
  · rw [if_neg hend] at hstep
    exact outcome_of_next hstep

/-- A quoted value that has an outcome is followed by a blank or nothing. -/
theorem startsBlank_of_quoted
    (hstep : parameterStep form .execute s = valueEndStep .execute field true s)
    (hs : Stands state k values r s) (hout : outcome form s ≠ none) : StartsBlank r := by
  intro c hc
  obtain ⟨r', rfl⟩ := List.head?_eq_some_iff.mp hc
  cases hblank : Text.isBlank c with
  | true => rfl
  | false =>
    rw [valueEndStep_unexpected hs.ahead_eq hblank] at hstep
    exact absurd (outcome_of_fail hstep) hout

/-! ## Tokens -/

theorem acceptsBool_of_or {token : String} (h : token = "true" ∨ token = "false") :
    acceptsBool .execute token = true := by
  rcases h with rfl | rfl
  · rfl
  · rfl

/-- A bare value is read up to its end. -/
theorem outcome_bareValue {c : Char} (hfield : form.fields[i]? = some field)
    (hc : BeginsBare field c) (hw : IsWord w) (hr : StartsBlank r)
    (hs : Stands (.value i .start) k values (c :: w ++ r) s) :
    ∃ t, Stands (.value i .endBare) k values r t ∧ t.token = String.ofList (c :: w) ∧
      outcome form s = outcome form t := by
  have hbegin : ∀ d ∈ (c :: w ++ r).head?, BeginsBare field d := by
    intro d hd
    rwa [← Option.some.inj hd]
  have hword : IsWord (c :: w) := by
    intro d hd
    rcases List.mem_cons.mp hd with rfl | hd
    · exact hc.2.2
    · exact hw d hd
  exact ⟨_, hs.beginToken.pushAll.goto (.value i .endBare), String.empty_append,
    outcome_congr (readForm_start_bare hfield hword hr hbegin hs.state_eq hs.ahead_eq)⟩

/-- A quoted value is read up to its end. -/
theorem outcome_quotedValue {q : Quote} {body : List Char} (hfield : form.fields[i]? = some field)
    (hbody : body ≠ []) (h : QuotedText q body token)
    (hs : Stands (.value i .start) k values (q.char :: (body ++ q.char :: r)) s) :
    ∃ t, Stands (.value i (.endQuoted q)) k values r t ∧ t.token = String.ofList token ∧
      outcome form s = outcome form t := by
  have hstart : parameterStep form .execute s =
      .next (s.beginToken.advance.goto (.value i (.quoted q))) :=
    step_start_quote hfield hs.state_eq hs.ahead_eq
  obtain ⟨t, ht, htoken, hout⟩ := outcome_quotation
    (fun t hstate => parameterStep_value hfield hstate) hbody h
    (hs.beginToken.advance.goto (.value i (.quoted q))) rfl rfl
  exact ⟨t, ht, htoken, (outcome_of_next hstart).trans hout⟩

/-- A token is read and given to the field. -/
theorem outcome_tokenText (hfield : form.fields[i]? = some field) (h : TokenText field text token)
    (hbool : field.type = .bool → String.ofList token = "true" ∨ String.ofList token = "false")
    (hr : StartsBlank r) (hs : Stands (.value i .start) k values (text ++ r) s) :
    ∃ t, Stands .parameterSeparator k
        (values.insert field.name (.ofToken field.multiselect (String.ofList token))) r t ∧
      outcome form s = outcome form t := by
  have hclose (quoted : Bool) {t : Scan} {stage : ValueStage}
      (hstep : parameterStep form .execute t = valueEndStep .execute field quoted t)
      (ht : Stands (.value i stage) k values r t) (htoken : t.token = String.ofList token)
      (hne : quoted = true ∨ t.token ≠ "") :
      ∃ u, Stands .parameterSeparator k
          (values.insert field.name (.ofToken field.multiselect (String.ofList token))) r u ∧
        outcome form t = outcome form u := by
    have haccepts : field.type = .bool → acceptsBool .execute t.token = true := by
      rw [htoken]
      exact fun htype => acceptsBool_of_or (hbool htype)
    obtain ⟨u, hu, hout⟩ := outcome_valueEnd hstep ht rfl hr haccepts hne
    rw [htoken] at hu
    exact ⟨u, hu, hout⟩
  cases h with
  | @bare c w hc hw =>
    obtain ⟨t, ht, htoken, hout⟩ := outcome_bareValue hfield hc hw hr hs
    have hne : t.token ≠ "" := by
      rw [htoken]
      intro hempty
      have hlist := congrArg String.toList hempty
      simp at hlist
    obtain ⟨u, hu, hout'⟩ := hclose false (parameterStep_value hfield ht.state_eq) ht
      htoken (.inr hne)
    exact ⟨u, hu, hout.trans hout'⟩
  | quoted h =>
    cases h with
    | @mk q body token hbody hquoted =>
      have hahead : q.char :: (body ++ [q.char]) ++ r = q.char :: (body ++ q.char :: r) := by simp
      rw [hahead] at hs
      obtain ⟨t, ht, htoken, hout⟩ := outcome_quotedValue hfield hbody hquoted hs
      obtain ⟨u, hu, hout'⟩ := hclose true (parameterStep_value hfield ht.state_eq) ht
        htoken (.inl rfl)
      exact ⟨u, hu, hout.trans hout'⟩

/-! ## Values -/

/-- A value is read and given to the field. -/
theorem outcome_value {value : Value} (hfield : form.fields[i]? = some field)
    (h : ValueText field text value) (hr : StartsBlank r)
    (hs : Stands (.value i .start) k values (text ++ r) s) :
    ∃ t, Stands .parameterSeparator k (values.insert field.name value) r t ∧
      outcome form s = outcome form t := by
  cases h with
  | token h hbool => exact outcome_tokenText hfield h hbool hr hs
  | @list text tokens hmulti h =>
    let u := (s.beginToken.assign field.name (.list [])).advance.goto (.list i .start)
    have hstart : parameterStep form .execute s = .next u :=
      step_start_bracket hfield hs.state_eq hs.ahead_eq hmulti
    have hvalues : u.values = values.insert field.name (.list []) := by
      rw [← hs.values_eq]
      rfl
    have hu : Stands (.list i .start) k (values.insert field.name (.list [])) (text ++ r) u :=
      ⟨rfl, hs.positionals_eq, hvalues, ahead_advance (s := s.beginToken) hs.ahead_eq⟩
    obtain ⟨t, ht, hread⟩ := outcome_listText hfield h hu
    obtain ⟨v, hv, hend⟩ := outcome_listEnd hr ht
    exact ⟨v, hv, ((outcome_of_next hstart).trans hread).trans hend⟩

/-- A run in front of a value that has an outcome reads one.  A boolean field could do without. -/
theorem exists_value (hfield : form.fields[i]? = some field) (hbool : field.type ≠ .bool)
    (hs : Stands (.value i .start) k values text s) (hout : outcome form s ≠ none) :
    ∃ w r value, text = w ++ r ∧ StartsBlank r ∧ ValueText field w value := by
  have hnot : ∀ p : Prop, field.type = .bool → p := fun _ htype => absurd htype hbool
  cases text with
  | nil =>
    exact absurd (outcome_of_failed (readForm_start_nil hfield hbool hs.state_eq hs.ahead_eq)) hout
  | cons c text =>
    by_cases hquote : ∃ q : Quote, c = q.char
    · -- a quotation
      obtain ⟨q, rfl⟩ := hquote
      have hstart : parameterStep form .execute s =
          .next (s.beginToken.advance.goto (.value i (.quoted q))) :=
        step_start_quote hfield hs.state_eq hs.ahead_eq
      obtain ⟨body, token, r, rfl, hbody, hquoted⟩ := exists_quotation
        (fun t hstate => parameterStep_value hfield hstate)
        (hs.beginToken.advance.goto (.value i (.quoted q))) rfl (outcome_of_next hstart ▸ hout)
      obtain ⟨t, ht, -, hread⟩ := outcome_quotedValue hfield hbody hquoted hs
      have hr : StartsBlank r := startsBlank_of_quoted
        (parameterStep_value hfield ht.state_eq) ht (hread ▸ hout)
      exact ⟨q.char :: (body ++ [q.char]), r, _, by simp, hr,
        .token (.quoted (.mk hbody hquoted)) (hnot _)⟩
    · have hplain : ∀ q : Quote, c ≠ q.char := fun q hq => hquote ⟨q, hq⟩
      by_cases hbracket : c = '[' ∧ field.multiselect = true
      · -- a list
        obtain ⟨rfl, hmulti⟩ := hbracket
        let u := (s.beginToken.assign field.name (.list [])).advance.goto (.list i .start)
        have hstart : parameterStep form .execute s = .next u :=
          step_start_bracket hfield hs.state_eq hs.ahead_eq hmulti
        have hu : Stands (.list i .start) k (s.values.insert field.name (.list [])) text u :=
          ⟨rfl, hs.positionals_eq, rfl, ahead_advance (s := s.beginToken) hs.ahead_eq⟩
        rw [outcome_of_next hstart] at hout
        obtain ⟨list, tokens, r, rfl, hlist⟩ := exists_listText hfield hu hout
        obtain ⟨t, ht, hread⟩ := outcome_listText hfield hlist hu
        exact ⟨'[' :: list, r, _, rfl, startsBlank_of_listEnd ht (hread ▸ hout), .list hmulti hlist⟩
      · cases hblank : Text.isBlank c with
        | true =>
          have hfail : parameterStep form .execute s =
              .fail s.beginToken (.unexpectedCharacter c) :=
            step_start_blank hfield hs.state_eq hs.ahead_eq hblank
          exact absurd (outcome_of_fail hfail) hout
        | false =>
          -- a bare value goes up to the next blank
          obtain ⟨w, r, rfl, hw, hr⟩ := exists_word text
          exact ⟨c :: w, r, _, rfl, hr, .token (.bare ⟨hplain, hbracket, hblank⟩ hw) (hnot _)⟩

end Scan

end SlashCommand
