import SlashCommand.Proofs.Scan.Dashes

/-!
# The flag that is typed

While a flag is typed, the text ends with its dashes and the beginning of its name, or with nothing
where none of it is typed yet (`EndsInFlag`).  What is in front of the dashes stays when the flag is
completed, and the scan of the completed text comes to the flag as the scan of the typed text did
(`exists_endsInFlag`).  From there it goes on with the dashes and the name, and with a blank or a
bracket if there is one.
-/

namespace SlashCommand

namespace Scan

variable {form : Form} {field : Field} {a s t u : Scan} {i n k : Nat} {c : Char} {values : Values}
  {pre dashes more name text : List Char}

/-! ## The end of the text -/

/-- The text that a scan for typing has read ends with the beginning of a flag, behind the text
`pre`: with its dashes and its name as far as it is typed, or with nothing. -/
structure EndsInFlag (s : Scan) (pre dashes : List Char) : Prop where
  apart : EndsApart pre
  text_eq : s.text = pre ++ (dashes ++ s.token.toList)
  tokenStart_eq : s.tokenStart = pre.length + dashes.length
  dashes : s.state = .startParameter ∧ dashes = [] ∧ s.token = "" ∨
    s.state = .flagName ∧ LeadingDashes dashes s.token.toList

theorem EndsInFlag.take_tokenStart (h : EndsInFlag s pre dashes) :
    s.text.take s.tokenStart = pre ++ dashes := by
  rw [h.text_eq, h.tokenStart_eq, ← List.append_assoc, ← List.length_append, List.take_left]

/-- The dashes and the name are told apart by where the token begins. -/
theorem Reading.text_split (hs : Reading form s.text s)
    (hbefore : s.text.take s.tokenStart = pre ++ dashes)
    (hbehind : s.text.drop s.tokenStart = s.token.toList) :
    s.text = pre ++ (dashes ++ s.token.toList) ∧ s.tokenStart = pre.length + dashes.length := by
  refine ⟨?_, ?_⟩
  · rw [← hbehind, ← List.append_assoc, ← hbefore, List.take_append_drop]
  · rw [← List.length_append, ← hbefore, List.length_take,
      Nat.min_eq_left (Nat.le_trans hs.tokenStart_le hs.cursor_le)]

/-- The dashes that are counted are those of the flag. -/
theorem EndsInFlag.typedDashes (h : EndsInFlag s pre dashes) : s.typedDashes = dashes.length := by
  obtain ⟨c, hlast, hc⟩ := h.apart
  obtain ⟨before, rfl⟩ := List.getLast?_eq_some_iff.mp hlast
  have hdash : (c == '-') = false := beq_false_of_ne fun heq => hc (by rw [heq]; decide)
  rw [Scan.typedDashes, h.take_tokenStart]
  rcases h.dashes with ⟨-, rfl, -⟩ | ⟨-, rfl | ⟨rfl, -⟩⟩
  all_goals simp [hdash]

/-- Whatever flag is typed behind `pre`, a scan for typing comes to it as `s` has come to its own. -/
def LeadsToFlag (form : Form) (a s : Scan) (pre : List Char) : Prop :=
  ∀ more, ∃ q, Stands .startParameter s.positionals s.values ('-' :: more) q ∧
    readForm form .autocomplete (a.onText (pre ++ '-' :: more)) = readForm form .autocomplete q

/-- Where a flag has been begun, another one can be typed. -/
theorem FlagBegun.leadsToFlag (h : FlagBegun form a pre s) (hs : Reading form a.text a)
    (hspans : Spans form a) (hstate : a.state = .startParameter) (hdash : pre ++ ['-'] <+: a.text) :
    a.cursor ≤ pre.length ∧ LeadsToFlag form a s pre := by
  obtain ⟨t, hreach, htstate, hcursor, hpositionals, hvalues⟩ := h.front
  have hle : a.cursor ≤ pre.length := by
    have hpoint := hreach.returnPoint_le hs
    rwa [returnPoint_of_outside (by rw [hstate]; rfl),
      returnPoint_of_outside (by rw [htstate]; rfl), hcursor] at hpoint
  refine ⟨hle, fun more => ?_⟩
  have htext : pre ++ ['-'] <+: pre ++ '-' :: more := ⟨more, by simp⟩
  have hread := (hreach.comesTo htstate hcursor hdash htext hs hspans).front hle
  refine ⟨t.onText (pre ++ '-' :: more), ⟨htstate, hpositionals, hvalues, ?_⟩, hread⟩
  show (pre ++ '-' :: more).drop t.cursor = _
  rw [hcursor, List.drop_left]

/-- A scan that stops in front of a parameter has nothing of a flag behind it. -/
theorem Parted.endsInFlag (h : Parted form a s) (hs : Reading form s.text s)
    (hspans : Spans form s) (hstop : parameterStep form .autocomplete s = .stop t)
    (hstate : t.state = .startParameter) : EndsInFlag t s.text [] := by
  obtain ⟨hahead, hends⟩ := (hs.stops hstop).of_startParameter hstate
  have hend : s.cursor = s.text.length := hs.cursor_eq hahead
  have hapart (h : EndsApart (s.text.take s.cursor)) : EndsApart s.text := by
    rwa [hend, List.take_length] at h
  rcases hends with ⟨hstart, rfl⟩ | ⟨hseparator, rfl⟩
  · have hbreak : EndsApart (s.text.take s.cursor) := h.of_state hstart
    exact ⟨hapart hbreak, (List.append_nil _).symm, hend, .inl ⟨hstate, rfl, rfl⟩⟩
  · have hbreak : EndsApart (s.text.take s.cursor) ∨ s.FacesBlank := h.of_state hseparator
    have htoken : s.token.toList = [] := hspans.of_state hseparator
    have hnone : ¬ s.FacesBlank := by
      rintro ⟨c, hc, -⟩
      rw [peek?_of_ahead_nil hahead] at hc
      cases hc
    refine ⟨hapart (hbreak.resolve_right hnone), ?_, hend,
      .inl ⟨rfl, rfl, String.toList_eq_nil_iff.mp htoken⟩⟩
    show s.text = s.text ++ ([] ++ s.token.toList)
    rw [htoken, List.append_nil, List.append_nil]

/-- A scan that stops in the name of a flag has begun that flag. -/
theorem Parted.exists_flagBegun (h : Parted form a s) (hs : Reading form s.text s)
    (hspans : Spans form s) (hahead : s.ahead = []) (hstate : s.state = .flagName) :
    ∃ pre dashes, EndsInFlag s pre dashes ∧ FlagBegun form a pre s ∧ pre ++ ['-'] <+: s.text := by
  obtain ⟨pre, dashes, hbegun, hbefore, hdashes⟩ := h.of_state hstate
  obtain ⟨htyped, -⟩ := hspans.of_state hstate
  have hbehind : s.text.drop s.tokenStart = s.token.toList := by
    rw [drop_tokenStart_of_nil hs hahead, htyped]
  rw [hbehind] at hdashes
  have hdash : ['-'] <+: dashes := by
    rcases hdashes with rfl | ⟨rfl, -⟩
    · exact ⟨['-'], rfl⟩
    · exact List.prefix_refl _
  obtain ⟨htext, hstart⟩ := hs.text_split hbefore hbehind
  refine ⟨pre, dashes, ⟨hbegun.apart, htext, hstart, .inr ⟨hstate, hdashes⟩⟩, hbegun, ?_⟩
  exact (List.prefix_append_right_inj pre).mpr hdash |>.trans (hbefore ▸ List.take_prefix _ _)

/-- A run for typing from `a` has come to `s`, and tokens stand apart there. -/
structure PartedAt (form : Form) (a s : Scan) : Prop where
  reaches : Reaches (parameterStep form .autocomplete) a s
  reading : Reading form a.text s
  spans : Spans form s
  parted : Parted form a s

theorem PartedAt.next (h : PartedAt form a s)
    (hstep : parameterStep form .autocomplete s = .next t) : PartedAt form a t := by
  have hs : Reading form s.text s := h.reading.text_eq ▸ h.reading
  exact ⟨.next h.reaches hstep, h.reading.next hstep, h.spans.next hs hstep,
    h.parted.next h.reaches hs h.spans hstep⟩

/-- A run that does not fail stops where tokens stand apart. -/
theorem PartedAt.exists_stop (h : PartedAt form a a)
    (hend : (readForm form .autocomplete a).isFailed = false) :
    ∃ u, PartedAt form a u ∧
      parameterStep form .autocomplete u = .stop (readForm form .autocomplete a) := by
  have hlast : ∃ u, PartedAt form a u ∧
      (parameterStep form .autocomplete u = .stop (readForm form .autocomplete a) ∨
        ∃ t e, parameterStep form .autocomplete u = .fail t e ∧
          readForm form .autocomplete a = t.fail e) :=
    exists_lastStep _ (fun u v hu hstep => hu.next hstep) h
  obtain ⟨u, hu, hstop | ⟨t, e, -, hfail⟩⟩ := hlast
  · exact ⟨u, hu, hstop⟩
  · rw [hfail] at hend
    cases hend

/-- **The flag that is typed.**  Where a scan for typing stops in front of a parameter or in the name
of a flag, the text ends with the beginning of a flag, and whatever flag is typed in its place is come
to in the same way. -/
theorem exists_endsInFlag (hs : Reading form a.text a) (hspans : Spans form a)
    (hstate : a.state = .startParameter) (hapart : EndsApart (a.text.take a.cursor))
    (hend : (readForm form .autocomplete a).state = .startParameter ∨
      (readForm form .autocomplete a).state = .flagName) :
    ∃ pre dashes, EndsInFlag (readForm form .autocomplete a) pre dashes ∧ a.cursor ≤ pre.length ∧
      LeadsToFlag form a (readForm form .autocomplete a) pre := by
  have hparted : Parted form a a := by
    rw [Parted, hstate]
    exact hapart
  have hfailed : (readForm form .autocomplete a).isFailed = false := by
    rcases hend with hend | hend
    · rw [isFailed, hend]
      rfl
    · rw [isFailed, hend]
      rfl
  have hbegin : PartedAt form a a := ⟨.refl, hs, hspans, hparted⟩
  obtain ⟨u, ⟨-, hu, huspans, huparted⟩, hstop⟩ := hbegin.exists_stop hfailed
  have hu' : Reading form u.text u := hu.text_eq ▸ hu
  rcases hend with hstart | hname
  · have hends := huparted.endsInFlag hu' huspans hstop hstart
    rw [hu.text_eq] at hends
    refine ⟨a.text, [], hends, hs.cursor_le, fun more => ?_⟩
    exact exists_stands_of_startParameter hs hspans hends.apart hstart more
  · obtain ⟨hname', hahead, hlast⟩ := (hu.stops hstop).of_flagName hname
    obtain ⟨pre, dashes, hends, hbegun, hdash⟩ := huparted.exists_flagBegun hu' huspans hahead hname'
    rw [← hlast] at hends hbegun
    obtain ⟨hle, hleads⟩ := hbegun.leadsToFlag hs hspans hstate (hu.text_eq ▸ hdash)
    exact ⟨pre, dashes, hends, hle, hleads⟩

/-! ## A flag that is completed -/

/-- A flag is read up to the end of its name. -/
theorem readForm_namedFlag (hname : ∀ c ∈ name, IsNameChar c)
    (hs : Stands .startParameter k values ('-' :: '-' :: (name ++ more)) s) :
    ∃ t, Stands .flagName k values more t ∧ t.token = String.ofList name ∧
      readForm form .autocomplete s = readForm form .autocomplete t := by
  have hlead : LeadingDashes ['-', '-'] (name ++ more) := .inl rfl
  obtain ⟨t, ht, htoken, hread⟩ : ∃ t, Stands .flagName k values (name ++ more) t ∧ t.token = "" ∧
      readForm form .autocomplete s = readForm form .autocomplete t := readForm_dashes hlead hs
  obtain ⟨u, hu, hutoken, hpass⟩ := readForm_flagName hname ht htoken
  exact ⟨u, hu, hutoken, hread.trans hpass⟩

/-- At the end of its name the scan stops in the flag. -/
theorem readForm_flag_nil (hname : ∀ c ∈ name, IsNameChar c)
    (hs : Stands .startParameter k values ('-' :: '-' :: name) s) :
    Stands .flagName k values [] (readForm form .autocomplete s) ∧
      (readForm form .autocomplete s).token = String.ofList name := by
  rw [← List.append_nil name] at hs
  obtain ⟨t, ht, htoken, hread⟩ : ∃ t, Stands .flagName k values [] t ∧
      t.token = String.ofList name ∧
      readForm form .autocomplete s = readForm form .autocomplete t := readForm_namedFlag hname hs
  have hstop : parameterStep form .autocomplete t = .stop t := by
    simp only [parameterStep, ht.state_eq, flagNameStep, peek?_of_ahead_nil ht.ahead_eq, if_pos]
  rw [hread, readForm_of_stop hstop]
  exact ⟨ht, htoken⟩

/-- A blank behind the name selects the field. -/
theorem readForm_flag_blank (hname : ∀ c ∈ name, IsNameChar c)
    (hfield : form.flag? name = some field)
    (hs : Stands .startParameter k values ('-' :: '-' :: (name ++ ' ' :: more)) s) :
    ∃ i t, form.fields[i]? = some field ∧ Stands (.value i (.separator false)) k values more t ∧
      readForm form .autocomplete s = readForm form .autocomplete t := by
  obtain ⟨t, ht, htoken, hread⟩ : ∃ t, Stands .flagName k values (' ' :: more) t ∧
      t.token = String.ofList name ∧
      readForm form .autocomplete s = readForm form .autocomplete t := readForm_namedFlag hname hs
  obtain ⟨i, u, hget, hu, hnext⟩ := flagEndStep_of_flag? hfield ht htoken
  have hend : parameterStep form .autocomplete t = .next u := by
    rw [step_flagName_end ht.state_eq (.inr ⟨' ', more, ht.ahead_eq, by decide⟩), hnext]
  have hblank : parameterStep form .autocomplete u = .next u.markToken.advance :=
    step_separator_blank hget hu.state_eq hu.ahead_eq (by decide)
  refine ⟨i, _, hget, hu.markToken.advance, ?_⟩
  rw [hread, readForm_of_next hend, readForm_of_next hblank]

/-- Behind the blank the scan stops in front of the value. -/
theorem readForm_flag_separator (hname : ∀ c ∈ name, IsNameChar c)
    (hfield : form.flag? name = some field)
    (hs : Stands .startParameter k values ('-' :: '-' :: (name ++ [' '])) s) :
    ∃ i, form.fields[i]? = some field ∧
      Stands (.value i (.separator false)) k values [] (readForm form .autocomplete s) := by
  obtain ⟨i, t, hget, ht, hread⟩ := readForm_flag_blank hname hfield hs
  have hpeek : t.markToken.peek? = none := peek?_of_ahead_nil ht.ahead_eq
  have hstop : parameterStep form .autocomplete t = .stop t.markToken := by
    rw [parameterStep_value hget ht.state_eq]
    simp only [valueStep, valueSeparatorStep, hpeek, if_pos]
  refine ⟨i, hget, ?_⟩
  rw [hread, readForm_of_stop hstop]
  exact ht.markToken

/-- A bracket behind the blank opens a list of the field. -/
theorem readForm_flag_bracket (hname : ∀ c ∈ name, IsNameChar c)
    (hfield : form.flag? name = some field) (hmulti : field.multiselect = true)
    (hs : Stands .startParameter k values ('-' :: '-' :: (name ++ [' ', '['])) s) :
    ∃ i, form.fields[i]? = some field ∧
      Stands (.list i .start) k (values.insert field.name (.list [])) []
        (readForm form .autocomplete s) := by
  obtain ⟨i, t, hget, ht, hread⟩ := readForm_flag_blank hname hfield hs
  let front := t.markToken.goto (.value i .start)
  let u := (front.beginToken.assign field.name (.list [])).advance.goto (.list i .start)
  have hfront : parameterStep form .autocomplete t = .next front :=
    step_separator_cons hget ht.state_eq ht.ahead_eq (by decide) (by decide)
  have hopen : parameterStep form .autocomplete front = .next u :=
    step_start_bracket hget rfl ht.ahead_eq hmulti
  have hu : Stands (.list i .start) k (values.insert field.name (.list [])) [] u := by
    refine ⟨rfl, ht.positionals_eq, ?_, ahead_advance ht.ahead_eq⟩
    rw [← ht.values_eq]
    rfl
  have hstop : parameterStep form .autocomplete u = .stop u.beginToken := by
    rw [parameterStep_list hget hu.state_eq]
    exact elementStep_nil hu.ahead_eq
  refine ⟨i, hget, ?_⟩
  rw [hread, readForm_of_next hfront, readForm_of_next hopen, readForm_of_stop hstop]
  exact hu.beginToken

end Scan

end SlashCommand
