import SlashCommand.Proofs.Scan.FlagPlaces

/-!
# Coming to a dash in another text

A run for typing stands in front of a dash.  Another text begins in the same way up to the dash, and
goes on in any way: the run comes to stand there as well.

* `Reaches.comesTo`: the run may have read beyond the dash before and have come back to it.  Then it
  was in the value of a boolean field, without marks (`Reaches.rejects`).  With the dash in it this is
  no truth value however it goes on, so that in the other text it is taken back, too, and to the same
  place.
* `exists_stands_of_startParameter`: the first text may also end where the dash is in the other one.
  At its end the run does not come to stand in front of a parameter from anywhere else
  (`Settled.not_awaitsParameter`).
-/

namespace SlashCommand

namespace Scan

variable {form : Form} {field : Field} {a s t u : Scan} {i n k : Nat} {c : Char} {values : Values}
  {pre dashes more name text : List Char}

/-! ## Values that are taken back -/

/-- What has a dash in it is not the beginning of a truth value. -/
theorem acceptsBool_of_dash {token : String} (h : '-' ∈ token.toList) :
    acceptsBool .autocomplete token = false := by
  have hnone {literal : String} (hliteral : '-' ∉ literal.toList) :
      Text.hasPrefix token literal = false := by
    refine Bool.eq_false_iff.mpr fun hbegins => hliteral ?_
    exact (List.isPrefixOf_iff_prefix.mp hbegins).subset h
  exact Bool.or_eq_false_iff.mpr ⟨hnone (by decide), hnone (by decide)⟩

theorem Rejects.push (h : Rejects form field i s) (c : Char) : Rejects form field i (s.push c) := by
  have htoken : s.token.push c = s.token ++ String.ofList [c] := by
    apply String.toList_inj.mp
    simp
  refine ⟨h.lookup, h.bool, ?_⟩
  show acceptsBool .autocomplete (s.token.push c) = false
  rw [htoken]
  exact acceptsBool_append h.token

/-- The scan does not come back to position `n`: it is in a bare value that is not taken back, or it is
past it. -/
def LeavesBehind (form : Form) (n : Nat) (s : Scan) : Prop :=
  n < s.returnPoint ∨ n < s.cursor ∧ ∃ i stage field, s.state = .value i stage ∧
    (stage = .bare ∨ stage = .endBare) ∧ form.fields[i]? = some field ∧ field.type ≠ .bool

theorem LeavesBehind.next (h : LeavesBehind form n s) (hs : Reading form s.text s)
    (hstep : parameterStep form .autocomplete s = .next t) : LeavesBehind form n t := by
  rcases h with hpassed | ⟨hcursor, i, stage, field, hstate, hbare, hfield, hbool⟩
  · have hle : s.returnPoint ≤ t.returnPoint := (Reaches.next .refl hstep).returnPoint_le hs
    exact .inl (Nat.lt_of_lt_of_le hpassed hle)
  · have hmove := valueMoves_of_parameterStep hfield hstate hstep
    rcases hbare with rfl | rfl
    · cases hmove with
      | push =>
        exact .inr ⟨Nat.lt_succ_of_lt hcursor, i, _, field, hstate, .inl rfl, hfield, hbool⟩
      | complete => exact .inr ⟨hcursor, i, _, field, rfl, .inr rfl, hfield, hbool⟩
    · cases hmove with
      | endBare hend =>
        cases hend with
        | rescan _ htype => exact absurd htype hbool
        | close => exact .inl hcursor

/-- A bare value that has been read beyond the place that the run comes back to is that of a boolean
field. -/
theorem Reaches.bool_of_bare (hreach : Reaches (parameterStep form .autocomplete) s t)
    (hstate : t.state = .startParameter) (hcursor : t.cursor < s.cursor)
    (hs : Reading form s.text s) {stage : ValueStage} (hvalue : s.state = .value i stage)
    (hbare : stage = .bare ∨ stage = .endBare) (hfield : form.fields[i]? = some field) :
    field.type = .bool := by
  refine Classical.byContradiction fun hbool => ?_
  have hleft : Reading form s.text t ∧ LeavesBehind form t.cursor t := by
    refine hreach.preserves (fun u => Reading form s.text u ∧ LeavesBehind form t.cursor u) ?_
      ⟨hs, .inr ⟨hcursor, i, stage, field, hvalue, hbare, hfield, hbool⟩⟩
    rintro u v ⟨hu, hleaves⟩ hstep
    exact ⟨hu.next hstep, hleaves.next (hu.text_eq ▸ hu) hstep⟩
  rcases hleft.2 with hpassed | ⟨hpassed, -⟩
  · rw [returnPoint_of_outside (by rw [hstate]; rfl)] at hpassed
    exact Nat.lt_irrefl _ hpassed
  · exact Nat.lt_irrefl _ hpassed

/-- A run that comes back to a dash, to stand in front of it, has read it in a value that is taken
back, whatever it goes on to. -/
theorem Reaches.rejects (hreach : Reaches (parameterStep form .autocomplete) s t)
    (hstate : t.state = .startParameter) (hcursor : t.cursor = pre.length)
    (hbegin : pre ++ ['-'] <+: s.text) (hs : Reading form s.text s) (hspans : Spans form s)
    (hread : pre.length < s.cursor) :
    s.tokenStart ≤ pre.length ∧ ∃ i field, (s.state = .value i .bare ∨ s.state = .value i .endBare) ∧
      Rejects form field i s := by
  obtain ⟨hstart, i, stage, hvalue, hbare⟩ :=
    hreach.isBare hstate hcursor hbegin hs hspans hread
  obtain ⟨field, -, hfield⟩ := hs.field (by rw [hvalue]; rfl)
  have hbool := hreach.bool_of_bare hstate (hcursor ▸ hread) hs hvalue hbare hfield
  have hopen : inOpenValue (.value i stage) = true := by
    rcases hbare with rfl | rfl
    · rfl
    · rfl
  have hdash : '-' ∈ s.token.toList := by
    rw [← (hspans.tokenPart hvalue hopen hfield).raw_eq hbare]
    exact mem_typed hbegin hstart hread
  refine ⟨hstart, i, field, ?_, hfield, hbool, acceptsBool_of_dash hdash⟩
  rw [hvalue]
  rcases hbare with rfl | rfl
  · exact .inl rfl
  · exact .inr rfl

/-- In another text the scan, if it is not beyond position `n`, comes to where `t` stands there; and so
does a scan in a value that is taken back, when it reads the value once more. -/
structure ComesTo (form : Form) (text : List Char) (n : Nat) (t s : Scan) : Prop where
  front : s.cursor ≤ n →
    readForm form .autocomplete (s.onText text) = readForm form .autocomplete (t.onText text)
  back : ∀ i field, (s.state = .value i .bare ∨ s.state = .value i .endBare) →
    Rejects form field i s → s.tokenStart ≤ n →
    readForm form .autocomplete ((s.rescan field).onText text) =
      readForm form .autocomplete (t.onText text)

theorem ComesTo.refl (hstate : s.state = .startParameter) : ComesTo form text n s s := by
  refine ⟨fun _ => rfl, fun i field hbare => ?_⟩
  rw [hstate] at hbare
  rcases hbare with hbare | hbare
  · cases hbare
  · cases hbare

/-- A step in a value that is taken back goes on in it, or takes it back. -/
theorem Rejects.step (h : Rejects form field i s)
    (hbare : s.state = .value i .bare ∨ s.state = .value i .endBare)
    (hstep : parameterStep form .autocomplete s = .next t) :
    t = s.rescan field ∨ (t.state = .value i .bare ∨ t.state = .value i .endBare) ∧
      Rejects form field i t ∧ t.tokenStart = s.tokenStart ∧ t.rescan field = s.rescan field := by
  rcases hbare with hstate | hstate
  · cases valueMoves_of_parameterStep h.lookup hstate hstep with
    | push => exact .inr ⟨.inl hstate, h.push _, rfl, rfl⟩
    | complete => exact .inr ⟨.inr rfl, ⟨h.lookup, h.bool, h.token⟩, rfl, rfl⟩
  · cases valueMoves_of_parameterStep h.lookup hstate hstep with
    | endBare hend =>
      cases hend with
      | rescan => exact .inl rfl
      | close _ _ _ haccept =>
        have hrejected := h.token
        rw [haccept h.bool] at hrejected
        cases hrejected

theorem ComesTo.of_next (h : ComesTo form text pre.length t u)
    (hstep : parameterStep form .autocomplete s = .next u)
    (hreach : Reaches (parameterStep form .autocomplete) u t) (hstate : t.state = .startParameter)
    (hcursor : t.cursor = pre.length) (hbegin : pre ++ ['-'] <+: s.text)
    (htext : pre ++ ['-'] <+: text) (hs : Reading form s.text s) (hspans : Spans form s) :
    ComesTo form text pre.length t s := by
  have hu := hs.next hstep
  refine ⟨fun hle => ?_, fun i field hbare hrejects hstart => ?_⟩
  · have hseen : SeenIn text 0 s := by
      refine .of_isPrefix hbegin htext ?_ ?_ fun i => state_ne_rest_of_next hstep
      · rw [List.length_append, List.length_singleton]
        exact Nat.lt_succ_of_le hle
      · rw [List.getLast?_concat]
        decide
    have hnext : parameterStep form .autocomplete (s.onText text) = .next (u.onText text) := by
      have hmove := parameterStep_transplanted_of_eq hseen hstep
      rwa [Step.map_transplanted_zero, transplanted_zero] at hmove
    rw [readForm_of_next hnext]
    by_cases hread : u.cursor ≤ pre.length
    · exact h.front hread
    · obtain ⟨hstart, i, field, hbare, hrejects⟩ := hreach.rejects hstate hcursor
        (hu.text_eq ▸ hbegin) (hu.text_eq ▸ hu) (hspans.next hs hstep) (Nat.lt_of_not_le hread)
      have hmore : Rejects form field i (u.onText text) :=
        ⟨hrejects.lookup, hrejects.bool, hrejects.token⟩
      rw [readForm_of_rejects hmore hbare]
      exact h.back i field hbare hrejects hstart
  · rcases hrejects.step hbare hstep with rfl | ⟨hbare', hrejects', hstart', hsame⟩
    · exact h.front hstart
    · rw [← hsame]
      exact h.back i field hbare' hrejects' (hstart'.symm ▸ hstart)

/-- A run that comes to stand in front of a dash comes there in every text that begins in the same way
up to the dash.  Where it has read beyond the dash before, it has taken that back. -/
theorem Reaches.comesTo (hreach : Reaches (parameterStep form .autocomplete) s t)
    (hstate : t.state = .startParameter) (hcursor : t.cursor = pre.length)
    (hbegin : pre ++ ['-'] <+: s.text) (htext : pre ++ ['-'] <+: text)
    (hs : Reading form s.text s) (hspans : Spans form s) :
    ComesTo form text pre.length t s := by
  induction s using run_induction (@parameterMeasure_lt form .autocomplete) with
  | next s u hstep ih =>
    rcases hreach.head with rfl | ⟨u', hstep', hreach'⟩
    · exact .refl hstate
    · obtain rfl := Step.next.inj (hstep.symm.trans hstep')
      have hu := hs.next hstep
      refine .of_next ?_ hstep hreach' hstate hcursor hbegin htext hs hspans
      exact ih hreach' (hu.text_eq ▸ hbegin) (hu.text_eq ▸ hu) (hspans.next hs hstep)
  | stop s u hstop =>
    rcases hreach.head with rfl | ⟨u', hstep, -⟩
    · exact .refl hstate
    · cases hstop.symm.trans hstep
  | fail s u e hfail =>
    rcases hreach.head with rfl | ⟨u', hstep, -⟩
    · exact .refl hstate
    · cases hfail.symm.trans hstep

/-! ## Between parameters -/

/-- Where a field is being given, the scan is not between parameters. -/
theorem not_awaitsParameter_of_field? {state : ScanState} (h : state.field? = some i) :
    ¬ AwaitsParameter state := by
  rintro (rfl | rfl)
  · cases h
  · cases h

/-- At the end of the text a scan that is not between parameters does not come there. -/
theorem WindsUp.not_awaitsParameter (h : WindsUp form s (.next t)) : ¬ AwaitsParameter t.state := by
  cases h with
  | flagDash =>
    rintro (hstart | hseparator)
    · cases hstart
    · cases hseparator
  | start | bare | elementStart | elementEnd => exact not_awaitsParameter_of_field? rfl

theorem Settled.not_awaitsParameter (h : Settled form s)
    (hstep : Scan.parameterStep form .autocomplete s = .next t) : ¬ AwaitsParameter t.state := by
  have hwinds := h.windsUp
  rw [hstep] at hwinds
  exact hwinds.not_awaitsParameter

/-- At the end of the text a scan that is not between parameters does not end there. -/
theorem Settled.state_ne_startParameter (h : Settled form s) (hs : Reading form s.text s)
    (hnot : ¬ AwaitsParameter s.state) :
    (readForm form .autocomplete s).state ≠ .startParameter := by
  refine run_invariant
    (fun u => Settled form u ∧ Reading form s.text u ∧ ¬ AwaitsParameter u.state)
    (fun t => t.state ≠ .startParameter) ?_ ?_ ?_ ⟨h, hs, hnot⟩
  · rintro u v ⟨hsettled, hu, -⟩ hstep
    have hv := hsettled.parameterStep
    rw [hstep] at hv
    exact ⟨hv, hu.next hstep, hsettled.not_awaitsParameter hstep⟩
  · rintro u v ⟨-, hu, hnot⟩ hstop hstart
    obtain ⟨-, ⟨hstate, -⟩ | ⟨hstate, -⟩⟩ := (hu.stops hstop).of_startParameter hstart
    · exact hnot (.inl hstate)
    · exact hnot (.inr hstate)
  · intro u v e _ _ hstart
    cases hstart

/-- A text that ends with a quotation does not end with a blank. -/
theorem not_endsApart_of_closed {q : Quote} {token : List Char}
    (h : ClosesQuotation q s.typed token) (hs : Reading form s.text s) (hahead : s.ahead = []) :
    ¬ EndsApart s.text := by
  rintro ⟨c, hlast, hc⟩
  obtain ⟨body, -, htyped, -⟩ := h
  have htake : s.text.take s.cursor = s.text := by
    rw [hs.cursor_eq hahead, List.take_length]
  obtain ⟨before, hbefore⟩ : s.typed <:+ s.text := htake ▸ suffix_take_cursor s
  rw [← hbefore, htyped, ← List.cons_append, ← List.append_assoc, List.getLast?_concat] at hlast
  obtain rfl := Option.some.inj hlast
  cases q with
  | double => exact hc (by decide)
  | tick => exact hc (by decide)

/-- A token that is rejected at the end of the text, in a value without marks, is rejected in a longer
text as well. -/
theorem readForm_onText_of_rejects (h : Rejects form field i s)
    (hbare : s.state = .value i .bare ∨ s.state = .value i .endBare)
    (hstep : parameterStep form .autocomplete s = .next u) (text : List Char) :
    readForm form .autocomplete (s.onText text) = readForm form .autocomplete (u.onText text) := by
  have hmore : Rejects form field i (s.onText text) := ⟨h.lookup, h.bool, h.token⟩
  rw [readForm_of_rejects hmore hbare]
  rcases h.step hbare hstep with rfl | ⟨hbare', h', -, hsame⟩
  · rfl
  · have hmore' : Rejects form field i (u.onText text) := ⟨h'.lookup, h'.bool, h'.token⟩
    rw [readForm_of_rejects hmore' hbare']
    exact (congrArg (fun v => readForm form .autocomplete (v.onText text)) hsame).symm

/-- On the way to a parameter at the end of the text, a run takes the same steps in a longer text.  At
the end of the text it can only take a value back. -/
theorem readForm_onText_of_next (hs : Reading form s.text s) (hspans : Spans form s)
    (hapart : EndsApart s.text) (hstep : parameterStep form .autocomplete s = .next u)
    (hend : (readForm form .autocomplete s).state = .startParameter) (more : List Char) :
    readForm form .autocomplete (s.onText (s.text ++ more)) =
      readForm form .autocomplete (u.onText (s.text ++ more)) := by
  have hu := hs.next hstep
  cases hc : s.peek? with
  | some c =>
    have hgoes : ∀ t, parameterStep form .autocomplete s ≠ .stop t := fun t hstop =>
      Step.noConfusion (hstep.symm.trans hstop)
    have hnext := parameterStep_onText (List.prefix_append _ more) hc hgoes
    rw [hstep] at hnext
    exact readForm_of_next hnext
  | none =>
    have hahead := ahead_of_peek?_none hc
    have hrejects : ∃ i stage field, s.state = .value i stage ∧ mayReject stage = true ∧
        Rejects form field i s := by
      refine Classical.byContradiction fun hnot => ?_
      have hsettled : Settled form s := ⟨hahead, fun i stage field hstate hstage hrejects =>
        hnot ⟨i, stage, field, hstate, hstage, hrejects⟩⟩
      have hsettled' := hsettled.parameterStep
      rw [hstep] at hsettled'
      rw [readForm_of_next hstep] at hend
      exact hsettled'.state_ne_startParameter (hu.text_eq ▸ hu)
        (hsettled.not_awaitsParameter hstep) hend
    obtain ⟨i, stage, field, hstate, hstage, hrejects⟩ := hrejects
    cases stage with
    | separator | start | quoted => cases hstage
    | bare => exact readForm_onText_of_rejects hrejects (.inl hstate) hstep _
    | endBare => exact readForm_onText_of_rejects hrejects (.inr hstate) hstep _
    | endQuoted q =>
      have hclosed := (hspans.tokenPart hstate rfl hrejects.lookup).closesQuotation
      exact absurd hapart (not_endsApart_of_closed hclosed hs hahead)

/-- Where a run stops in front of a parameter, a dash that comes there is the first one of a flag. -/
theorem exists_stands_of_stop (hs : Reading form s.text s)
    (hstop : parameterStep form .autocomplete s = .stop t) (hend : t.state = .startParameter)
    (more : List Char) :
    ∃ q, Stands .startParameter t.positionals t.values ('-' :: more) q ∧
      readForm form .autocomplete (s.onText (s.text ++ '-' :: more)) =
        readForm form .autocomplete q := by
  let q := s.onText (s.text ++ '-' :: more)
  have hdash (hahead : s.ahead = []) : q.ahead = '-' :: more := by
    show (s.text ++ '-' :: more).drop s.cursor = _
    rw [hs.cursor_eq hahead, List.drop_left]
  obtain ⟨hahead, ⟨hstate, rfl⟩ | ⟨hstate, rfl⟩⟩ :=
    (hs.stops hstop).of_startParameter hend
  · exact ⟨q, ⟨hstate, rfl, rfl, hdash hahead⟩, rfl⟩
  · have hnext : parameterStep form .autocomplete q = .next (q.markToken.goto .startParameter) :=
      step_parameterSeparator_cons hstate (hdash hahead) (by decide)
    exact ⟨q.markToken.goto .startParameter, ⟨rfl, rfl, rfl, hdash hahead⟩, readForm_of_next hnext⟩

/-- Where a text ends apart and its scan ends in front of a parameter, the scan of a text that goes on
with a dash comes there. -/
theorem exists_stands_of_startParameter (hs : Reading form s.text s) (hspans : Spans form s)
    (hapart : EndsApart s.text)
    (hend : (readForm form .autocomplete s).state = .startParameter) (more : List Char) :
    ∃ q, Stands .startParameter (readForm form .autocomplete s).positionals
        (readForm form .autocomplete s).values ('-' :: more) q ∧
      readForm form .autocomplete (s.onText (s.text ++ '-' :: more)) =
        readForm form .autocomplete q := by
  induction s using run_induction (@parameterMeasure_lt form .autocomplete) with
  | next s u hstep ih =>
    have hu := hs.next hstep
    rw [readForm_onText_of_next hs hspans hapart hstep hend, readForm_of_next hstep, ← hu.text_eq]
    rw [readForm_of_next hstep] at hend
    exact ih (hu.text_eq ▸ hu) (hspans.next hs hstep) (hu.text_eq ▸ hapart) hend
  | stop s t hstop =>
    rw [readForm_of_stop hstop] at hend ⊢
    exact exists_stands_of_stop hs hstop hend more
  | fail s t e hfail =>
    rw [readForm_of_fail hfail] at hend
    cases hend

end Scan

end SlashCommand
