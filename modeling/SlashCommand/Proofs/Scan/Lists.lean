import SlashCommand.Proofs.Scan.Outcome

/-!
# Reading a list

A list in brackets is read element by element, and each element is appended to what the field
already holds.  `outcome_elements` follows the elements that a text has, and `exists_elements` finds
them in a text that has an outcome.

An element ends where its text does, but in one of two ways: a bare one in front of a blank, a comma
or the closing bracket, and a quoted one behind its mark.  From there both go on alike.
-/

namespace SlashCommand

namespace Scan

variable {form : Form} {field : Field} {i k : Nat} {values : Values} {s : Scan}
  {text r token w gap : List Char}

/-! ## Appending to a field -/

/-- A field has the value that it was given last. -/
theorem insert_insert_self (values : Values) (name : String) (v w : Value) :
    (values.insert name v).insert name w = values.insert name w := by
  apply Std.ExtTreeMap.ext_getElem?
  intro key
  rw [Std.ExtTreeMap.getElem?_insert, Std.ExtTreeMap.getElem?_insert,
    Std.ExtTreeMap.getElem?_insert]
  split
  · rfl
  · rfl

theorem appendTo_insert (values : Values) (name token : String) (tokens : List String) :
    appendTo name token (values.insert name (.list tokens)) =
      values.insert name (.list (tokens ++ [token])) := by
  rw [appendTo, Std.ExtTreeMap.getElem?_insert_self]
  exact insert_insert_self values name _ _

/-! ## Gaps -/

/-- The blanks behind a bracket or a comma are passed. -/
theorem outcome_elementGap {stage : ListStage} {afterComma : Bool}
    (hfield : form.fields[i]? = some field)
    (hstage : ∀ s, listStep .execute field i stage s = elementStep .execute i afterComma s)
    (hgap : IsGap gap) (hs : Stands (.list i stage) k values (gap ++ r) s) :
    ∃ t, Stands (.list i stage) k values r t ∧ outcome form s = outcome form t := by
  refine outcome_passes ?_ hs hgap
  intro t c r' ht hc
  refine ⟨t.advance, ht.advance, ?_⟩
  rw [parameterStep_list hfield ht.state_eq, hstage]
  exact elementStep_blank ht.ahead_eq hc

/-- The blanks behind an element are passed. -/
theorem outcome_separatorGap (hfield : form.fields[i]? = some field) (hgap : IsGap gap)
    (hs : Stands (.list i .separator) k values (gap ++ r) s) :
    ∃ t, Stands (.list i .separator) k values r t ∧ outcome form s = outcome form t := by
  refine outcome_passes ?_ hs hgap
  intro t c r' ht hc
  refine ⟨t.advance, ht.advance, ?_⟩
  rw [parameterStep_list hfield ht.state_eq]
  exact elementSeparatorStep_blank ht.ahead_eq hc

/-! ## Elements -/

/-- What may stand behind a bare element. -/
def EndsElement (c : Char) : Prop := Text.isBlank c = true ∨ c = ',' ∨ c = ']'

/-- A complete element is appended to the list. -/
theorem outcome_elementEnd (hfield : form.fields[i]? = some field)
    (hs : Stands (.list i .elementEnd) k values r s) :
    ∃ t, Stands (.list i .separator) k (appendTo field.name s.token values) r t ∧
      outcome form s = outcome form t := by
  let t : Scan := { s with
    values := appendTo field.name s.token s.values, token := "", state := .list i .separator }
  have hnext : parameterStep form .execute s = .next t := parameterStep_list hfield hs.state_eq
  have hvalues : t.values = appendTo field.name s.token values := by
    rw [← hs.values_eq]
  exact ⟨t, ⟨rfl, hs.positionals_eq, hvalues, hs.ahead_eq⟩, outcome_of_next hnext⟩

/-- A bare element is read up to its end. -/
theorem outcome_bareElement {c : Char} (hfield : form.fields[i]? = some field) (hne : w ≠ [])
    (hw : ∀ c ∈ w, IsElementChar c) (hc : EndsElement c)
    (hs : Stands (.list i .elementStart) k values (w ++ c :: r) s) :
    ∃ t, Stands (.list i .elementEnd) k values (c :: r) t ∧ t.token = String.ofList w ∧
      outcome form s = outcome form t := by
  obtain ⟨d, w', rfl⟩ := List.exists_cons_of_ne_nil hne
  obtain ⟨-, hcomma, hclose, -, hquote⟩ := hw d List.mem_cons_self
  have hstart : parameterStep form .execute s = .next (s.beginToken.goto (.list i .bare)) := by
    rw [parameterStep_list hfield hs.state_eq]
    exact elementStartStep_bare hs.ahead_eq hquote hcomma hclose
  have hbare := hs.beginToken.goto (.list i .bare)
  have hstep (t : Scan) (c : Char) (r' : List Char) (hstate : t.state = .list i .bare)
      (hahead : t.ahead = c :: r') (hc : IsElementChar c) :
      parameterStep form .execute t = .next (t.push c) := by
    rw [parameterStep_list hfield hstate]
    exact bareElementStep_cons hahead hc
  have hpush := outcome_pushAll hstep hbare hw
  let u := (s.beginToken.goto (.list i .bare)).pushAll (d :: w')
  have hread : Stands (.list i .bare) k values (c :: r) u := hbare.pushAll
  have hend : parameterStep form .execute u = .next (u.goto (.list i .elementEnd)) := by
    rw [parameterStep_list hfield hread.state_eq]
    exact bareElementStep_end hread.ahead_eq hc
  refine ⟨_, hread.goto (.list i .elementEnd), String.empty_append, ?_⟩
  rw [outcome_of_next hstart, hpush, outcome_of_next hend]

/-- A quoted element is read up to its end. -/
theorem outcome_quotedElement {q : Quote} {body : List Char}
    (hfield : form.fields[i]? = some field) (hbody : body ≠ []) (h : QuotedText q body token)
    (hs : Stands (.list i .elementStart) k values (q.char :: (body ++ q.char :: r)) s) :
    ∃ t, Stands (.list i .elementEnd) k values r t ∧ t.token = String.ofList token ∧
      outcome form s = outcome form t := by
  have hstart : parameterStep form .execute s =
      .next (s.beginToken.advance.goto (.list i (.quoted q))) := by
    rw [parameterStep_list hfield hs.state_eq]
    exact elementStartStep_quote hs.ahead_eq
  obtain ⟨t, ht, htoken, hout⟩ := outcome_quotation
    (fun t hstate => parameterStep_list hfield hstate) hbody h
    (hs.beginToken.advance.goto (.list i (.quoted q))) rfl rfl
  exact ⟨t, ht, htoken, (outcome_of_next hstart).trans hout⟩

/-- An element is read and appended to the list. -/
theorem outcome_element {c : Char} (hfield : form.fields[i]? = some field)
    (h : ElementText text token) (hc : EndsElement c)
    (hs : Stands (.list i .elementStart) k values (text ++ c :: r) s) :
    ∃ t, Stands (.list i .separator) k (appendTo field.name (String.ofList token) values)
        (c :: r) t ∧ outcome form s = outcome form t := by
  have hread : ∃ t, Stands (.list i .elementEnd) k values (c :: r) t ∧
      t.token = String.ofList token ∧ outcome form s = outcome form t := by
    cases h with
    | bare hne hw => exact outcome_bareElement hfield hne hw hc hs
    | quoted h =>
      obtain ⟨hbody, hquoted⟩ := h
      refine outcome_quotedElement hfield hbody hquoted ?_
      simpa using hs
  obtain ⟨t, ht, htoken, hout⟩ := hread
  obtain ⟨u, hu, hout'⟩ := outcome_elementEnd hfield ht
  rw [htoken] at hu
  exact ⟨u, hu, hout.trans hout'⟩

/-! ## All elements -/

/-- An element and the blanks behind it are read, and the element is appended to the list. -/
theorem outcome_elementAndGap {tokens : List String} {c : Char}
    (hfield : form.fields[i]? = some field) (h : ElementText text token) (hgap : IsGap gap)
    (hc : EndsElement c)
    (hs : Stands (.list i .elementStart) k (values.insert field.name (.list tokens))
      (text ++ (gap ++ c :: r)) s) :
    ∃ t, Stands (.list i .separator) k
        (values.insert field.name (.list (tokens ++ [String.ofList token]))) (c :: r) t ∧
      outcome form s = outcome form t := by
  obtain ⟨d, r', hcons, hd⟩ : ∃ d r', gap ++ c :: r = d :: r' ∧ EndsElement d := by
    cases gap with
    | nil => exact ⟨c, r, rfl, hc⟩
    | cons d gap => exact ⟨d, _, rfl, .inl (hgap d List.mem_cons_self)⟩
  rw [hcons] at hs
  obtain ⟨t, ht, hread⟩ := outcome_element hfield h hd hs
  rw [appendTo_insert, ← hcons] at ht
  obtain ⟨u, hu, hpass⟩ := outcome_separatorGap hfield hgap ht
  exact ⟨u, hu, hread.trans hpass⟩

/-- The elements of a list are read and appended to it, in order. -/
theorem outcome_elements {tokens read : List String} (hfield : form.fields[i]? = some field)
    (h : ElementsText text tokens)
    (hs : Stands (.list i .elementStart) k (values.insert field.name (.list read)) (text ++ r) s) :
    ∃ t, Stands (.listEnd i) k (values.insert field.name (.list (read ++ tokens))) r t ∧
      outcome form s = outcome form t := by
  induction h generalizing s read with
  | @last text token gap htext hgap =>
    rw [List.append_assoc, List.append_assoc] at hs
    obtain ⟨t, ht, hread⟩ := outcome_elementAndGap hfield htext hgap (.inr (.inr rfl)) hs
    have hclose : parameterStep form .execute t = .next (t.advance.goto (.listEnd i)) := by
      rw [parameterStep_list hfield ht.state_eq]
      exact elementSeparatorStep_close ht.ahead_eq
    exact ⟨_, ht.advance.goto (.listEnd i), hread.trans (outcome_of_next hclose)⟩
  | @more text token gap gap' rest tokens htext hgap hgap' hrest ih =>
    have hahead : text ++ (gap ++ ',' :: (gap' ++ rest)) ++ r =
        text ++ (gap ++ ',' :: (gap' ++ (rest ++ r))) := by
      simp
    rw [hahead] at hs
    obtain ⟨t, ht, hread⟩ := outcome_elementAndGap hfield htext hgap (.inr (.inl rfl)) hs
    have hcomma : parameterStep form .execute t = .next (t.advance.goto (.list i .next)) := by
      rw [parameterStep_list hfield ht.state_eq]
      exact elementSeparatorStep_comma ht.ahead_eq
    -- behind the comma a further element begins
    obtain ⟨u, hu, hpass⟩ := outcome_elementGap hfield (fun _ => rfl) hgap'
      (ht.advance.goto (.list i .next))
    obtain ⟨c, r', hcons, hblank, hnclose, hncomma⟩ := hrest.exists_cons
    have huahead : u.ahead = c :: (r' ++ r) := by
      rw [hu.ahead_eq, hcons]
      rfl
    have hbegin : parameterStep form .execute u = .next (u.goto (.list i .elementStart)) := by
      rw [parameterStep_list hfield hu.state_eq]
      exact elementStep_cons huahead hblank hnclose fun _ => hncomma
    obtain ⟨v, hv, hmore⟩ := ih (hu.goto (.list i .elementStart))
    rw [List.append_assoc] at hv
    refine ⟨v, hv, ?_⟩
    rw [hread, outcome_of_next hcomma, hpass, outcome_of_next hbegin, hmore]

/-- Behind the closing bracket stands a blank or nothing. -/
theorem outcome_listEnd (hr : StartsBlank r) (hs : Stands (.listEnd i) k values r s) :
    ∃ t, Stands .parameterSeparator k values r t ∧ outcome form s = outcome form t := by
  have hbehind := hs.beginToken.goto .parameterSeparator
  refine ⟨_, hbehind, ?_⟩
  cases r with
  | nil =>
    have hfailed : s.beginToken.isFailed = false := hs.beginToken.isFailed_eq
    rw [outcome_of_stop (step_listEnd_nil hs.state_eq hs.ahead_eq) hfailed,
      outcome_parameterSeparator_nil hbehind]
    exact congrArg some hs.values_eq
  | cons c r =>
    exact outcome_of_next (step_listEnd_blank hs.state_eq hs.ahead_eq (hr c rfl))

/-- A list is read behind its opening bracket. -/
theorem outcome_listText {tokens : List String} (hfield : form.fields[i]? = some field)
    (h : ListText text tokens)
    (hs : Stands (.list i .start) k (values.insert field.name (.list [])) (text ++ r) s) :
    ∃ t, Stands (.listEnd i) k (values.insert field.name (.list tokens)) r t ∧
      outcome form s = outcome form t := by
  cases h with
  | @empty gap hgap =>
    rw [List.append_assoc] at hs
    obtain ⟨t, ht, hout⟩ := outcome_elementGap hfield (fun _ => rfl) hgap hs
    have hclose : parameterStep form .execute t = .next (t.advance.goto (.listEnd i)) := by
      rw [parameterStep_list hfield ht.state_eq]
      exact elementStep_close ht.ahead_eq
    exact ⟨_, ht.advance.goto (.listEnd i), hout.trans (outcome_of_next hclose)⟩
  | @elements gap text tokens hgap htext =>
    rw [List.append_assoc] at hs
    obtain ⟨t, ht, hout⟩ := outcome_elementGap hfield (fun _ => rfl) hgap hs
    obtain ⟨c, r', rfl, hblank, hclose, hcomma⟩ := htext.exists_cons
    have hbegin : parameterStep form .execute t = .next (t.goto (.list i .elementStart)) := by
      rw [parameterStep_list hfield ht.state_eq]
      exact elementStep_cons ht.ahead_eq hblank hclose fun _ => hcomma
    obtain ⟨u, hu, hout'⟩ := outcome_elements hfield htext (ht.goto (.list i .elementStart))
    exact ⟨u, hu, (hout.trans (outcome_of_next hbegin)).trans hout'⟩

/-! ## What a list that is read consists of -/

/-- A bare element that is read to its end consists of its characters. -/
theorem exists_bareElement (hfield : form.fields[i]? = some field)
    (hs : Stands (.list i .bare) k values text s) (hout : outcome form s ≠ none) :
    ∃ w c r, text = w ++ c :: r ∧ (∀ c ∈ w, IsElementChar c) ∧ EndsElement c := by
  induction text generalizing s with
  | nil =>
    have hfail : parameterStep form .execute s = .fail s .missingListEnd := by
      rw [parameterStep_list hfield hs.state_eq]
      exact bareElementStep_nil hs.ahead_eq
    exact absurd (outcome_of_fail hfail) hout
  | cons c text ih =>
    by_cases hend : EndsElement c
    · exact ⟨[], c, text, rfl, fun _ h => absurd h List.not_mem_nil, hend⟩
    · by_cases hopen : c = '[' ∨ ∃ q : Quote, c = q.char
      · have hfail : parameterStep form .execute s = .fail s (.unexpectedCharacter c) := by
          rw [parameterStep_list hfield hs.state_eq]
          exact bareElementStep_open hs.ahead_eq hopen
        exact absurd (outcome_of_fail hfail) hout
      · obtain ⟨hblank, hcomma, hclose⟩ : Text.isBlank c = false ∧ c ≠ ',' ∧ c ≠ ']' := by
          simpa [EndsElement] using hend
        obtain ⟨hbracket, hquote⟩ := not_or.mp hopen
        have hc : IsElementChar c :=
          ⟨hblank, hcomma, hclose, hbracket, fun q hq => hquote ⟨q, hq⟩⟩
        have hnext : parameterStep form .execute s = .next (s.push c) := by
          rw [parameterStep_list hfield hs.state_eq]
          exact bareElementStep_cons hs.ahead_eq hc
        obtain ⟨w, d, r, htext, hw, hd⟩ := ih (hs.push c) (outcome_of_next hnext ▸ hout)
        refine ⟨c :: w, d, r, by rw [htext]; rfl, ?_, hd⟩
        intro e he
        rcases List.mem_cons.mp he with rfl | he
        · exact hc
        · exact hw e he

/-- A run in front of an element that has an outcome reads one. -/
theorem exists_element {c : Char} (hfield : form.fields[i]? = some field)
    (hs : Stands (.list i .elementStart) k values (c :: text) s)
    (hblank : Text.isBlank c = false) (hclose : c ≠ ']') (hout : outcome form s ≠ none) :
    ∃ element token r, c :: text = element ++ r ∧ ElementText element token ∧
      ∃ t, Stands (.list i .separator) k (appendTo field.name (String.ofList token) values) r t ∧
        outcome form s = outcome form t := by
  by_cases hquote : ∃ q : Quote, c = q.char
  · -- a quoted element
    obtain ⟨q, rfl⟩ := hquote
    have hstart : parameterStep form .execute s =
        .next (s.beginToken.advance.goto (.list i (.quoted q))) := by
      rw [parameterStep_list hfield hs.state_eq]
      exact elementStartStep_quote hs.ahead_eq
    obtain ⟨body, token, r, htext, hbody, hquoted⟩ := exists_quotation
      (fun t hstate => parameterStep_list hfield hstate)
      (hs.beginToken.advance.goto (.list i (.quoted q))) rfl (outcome_of_next hstart ▸ hout)
    rw [htext] at hs
    obtain ⟨t, ht, htoken, hread⟩ := outcome_quotedElement hfield hbody hquoted hs
    obtain ⟨u, hu, hend⟩ := outcome_elementEnd hfield ht
    rw [htoken] at hu
    refine ⟨q.char :: (body ++ [q.char]), token, r, ?_, .quoted (.mk hbody hquoted), u, hu,
      hread.trans hend⟩
    rw [htext]
    simp
  · by_cases hcomma : c = ','
    · subst hcomma
      have hfail : parameterStep form .execute s = .fail s.beginToken .emptyValue := by
        rw [parameterStep_list hfield hs.state_eq]
        exact elementStartStep_comma hs.ahead_eq
      exact absurd (outcome_of_fail hfail) hout
    · -- a bare element
      have hstart : parameterStep form .execute s = .next (s.beginToken.goto (.list i .bare)) := by
        rw [parameterStep_list hfield hs.state_eq]
        exact elementStartStep_bare hs.ahead_eq (fun q hq => hquote ⟨q, hq⟩) hcomma hclose
      obtain ⟨w, d, r, htext, hw, hd⟩ := exists_bareElement hfield
        (hs.beginToken.goto (.list i .bare)) (outcome_of_next hstart ▸ hout)
      have hne : w ≠ [] := by
        rintro rfl
        obtain ⟨rfl, -⟩ := List.cons.inj htext
        rcases hd with hd | hd | hd
        · rw [hblank] at hd
          cases hd
        · exact hcomma hd
        · exact hclose hd
      rw [htext] at hs
      exact ⟨w, w, d :: r, htext, .bare hne hw, outcome_element hfield (.bare hne hw) hd hs⟩

/-- A run behind an element that has an outcome finds a comma or the closing bracket. -/
theorem exists_elementSeparator (hfield : form.fields[i]? = some field)
    (hs : Stands (.list i .separator) k values text s) (hout : outcome form s ≠ none) :
    ∃ gap r, IsGap gap ∧ (text = gap ++ ']' :: r ∨ text = gap ++ ',' :: r ∧
      ∃ t, Stands (.list i .next) k values r t ∧ outcome form s = outcome form t) := by
  obtain ⟨gap, rest, rfl, hgap, hplain⟩ := exists_gap text
  obtain ⟨t, ht, hpass⟩ := outcome_separatorGap hfield hgap hs
  rw [hpass] at hout ⊢
  have hstep : parameterStep form .execute t = listStep .execute field i .separator t :=
    parameterStep_list hfield ht.state_eq
  cases rest with
  | nil =>
    have hfail := hstep.trans (elementSeparatorStep_nil ht.ahead_eq)
    exact absurd (outcome_of_fail hfail) hout
  | cons c r =>
    refine ⟨gap, r, hgap, ?_⟩
    by_cases hclose : c = ']'
    · subst hclose
      exact .inl rfl
    · by_cases hcomma : c = ','
      · subst hcomma
        have hnext := hstep.trans (elementSeparatorStep_comma ht.ahead_eq)
        exact .inr ⟨rfl, _, ht.advance.goto (.list i .next), outcome_of_next hnext⟩
      · have hblank : Text.isBlank c = false := hplain c rfl
        have hfail := hstep.trans (elementSeparatorStep_cons ht.ahead_eq hblank hcomma hclose)
        exact absurd (outcome_of_fail hfail) hout

/-- A run behind a comma that has an outcome stands in front of an element. -/
theorem exists_nextElement (hfield : form.fields[i]? = some field)
    (hs : Stands (.list i .next) k values text s) (hout : outcome form s ≠ none) :
    ∃ gap c r, text = gap ++ c :: r ∧ IsGap gap ∧ Text.isBlank c = false ∧ c ≠ ']' ∧
      ∃ t, Stands (.list i .elementStart) k values (c :: r) t ∧
        outcome form s = outcome form t := by
  obtain ⟨gap, rest, rfl, hgap, hplain⟩ := exists_gap text
  obtain ⟨t, ht, hpass⟩ := outcome_elementGap hfield (fun _ => rfl) hgap hs
  rw [hpass] at hout ⊢
  have hstep : parameterStep form .execute t = elementStep .execute i true t :=
    parameterStep_list hfield ht.state_eq
  cases rest with
  | nil =>
    have hfail := hstep.trans (elementStep_nil ht.ahead_eq)
    exact absurd (outcome_of_fail hfail) hout
  | cons c r =>
    have hblank : Text.isBlank c = false := hplain c rfl
    by_cases hend : c = ']' ∨ c = ','
    · have hfail := hstep.trans (elementStep_afterComma ht.ahead_eq hend)
      exact absurd (outcome_of_fail hfail) hout
    · obtain ⟨hclose, hcomma⟩ := not_or.mp hend
      have hnext := hstep.trans (elementStep_cons ht.ahead_eq hblank hclose fun _ => hcomma)
      exact ⟨gap, c, r, rfl, hgap, hblank, hclose, _, ht.goto (.list i .elementStart),
        outcome_of_next hnext⟩

/-- A run in front of an element that has an outcome reads elements up to the closing bracket. -/
theorem exists_elements {c : Char} (hfield : form.fields[i]? = some field)
    (hs : Stands (.list i .elementStart) k values (c :: text) s)
    (hblank : Text.isBlank c = false) (hclose : c ≠ ']') (hout : outcome form s ≠ none) :
    ∃ elements tokens r, c :: text = elements ++ r ∧ ElementsText elements tokens := by
  induction hn : text.length using Nat.strongRecOn generalizing s c text values with
  | ind n ih =>
    obtain ⟨element, token, r, htext, helement, t, ht, hread⟩ :=
      exists_element hfield hs hblank hclose hout
    rw [hread] at hout
    obtain ⟨gap, r', hgap, hend | ⟨hcomma, u, hu, hnext⟩⟩ :=
      exists_elementSeparator hfield ht hout
    · -- the last element
      refine ⟨element ++ (gap ++ [']']), [String.ofList token], r', ?_, .last helement hgap⟩
      rw [htext, hend]
      simp
    · -- a comma, and further elements
      rw [hnext] at hout
      obtain ⟨gap', d, r'', hr, hgap', hdblank, hdclose, v, hv, hbegin⟩ :=
        exists_nextElement hfield hu hout
      rw [hbegin] at hout
      have hlt : r''.length < n := by
        have hlength := congrArg List.length htext
        rw [hcomma, hr] at hlength
        simp only [List.length_cons, List.length_append] at hlength
        omega
      obtain ⟨elements, tokens, rest, hmore, helements⟩ :=
        ih r''.length hlt hv hdblank hdclose hout rfl
      refine ⟨element ++ (gap ++ ',' :: (gap' ++ elements)), String.ofList token :: tokens, rest,
        ?_, .more helement hgap hgap' helements⟩
      rw [htext, hcomma, hr, hmore]
      simp

/-- A run behind an opening bracket that has an outcome reads a list. -/
theorem exists_listText (hfield : form.fields[i]? = some field)
    (hs : Stands (.list i .start) k values text s) (hout : outcome form s ≠ none) :
    ∃ list tokens r, text = list ++ r ∧ ListText list tokens := by
  obtain ⟨gap, rest, rfl, hgap, hplain⟩ := exists_gap text
  obtain ⟨t, ht, hpass⟩ := outcome_elementGap hfield (fun _ => rfl) hgap hs
  rw [hpass] at hout
  have hstep : parameterStep form .execute t = elementStep .execute i false t :=
    parameterStep_list hfield ht.state_eq
  cases rest with
  | nil =>
    have hfail := hstep.trans (elementStep_nil ht.ahead_eq)
    exact absurd (outcome_of_fail hfail) hout
  | cons c r =>
    have hblank : Text.isBlank c = false := hplain c rfl
    by_cases hclose : c = ']'
    · subst hclose
      exact ⟨gap ++ [']'], [], r, by simp, .empty hgap⟩
    · have hnext := hstep.trans (elementStep_cons ht.ahead_eq hblank hclose nofun)
      obtain ⟨elements, tokens, r', htext, helements⟩ := exists_elements hfield
        (ht.goto (.list i .elementStart)) hblank hclose (outcome_of_next hnext ▸ hout)
      refine ⟨gap ++ elements, tokens, r', ?_, .elements hgap helements⟩
      rw [htext, List.append_assoc]

/-- A run behind the closing bracket that has an outcome finds a blank or nothing. -/
theorem startsBlank_of_listEnd (hs : Stands (.listEnd i) k values r s)
    (hout : outcome form s ≠ none) : StartsBlank r := by
  intro c hc
  obtain ⟨r', rfl⟩ := List.head?_eq_some_iff.mp hc
  cases hblank : Text.isBlank c with
  | true => rfl
  | false =>
    have hfail : parameterStep form .execute s = .fail s.beginToken (.unexpectedCharacter c) :=
      step_listEnd_cons hs.state_eq hs.ahead_eq hblank
    exact absurd (outcome_of_fail hfail) hout

end Scan

end SlashCommand
