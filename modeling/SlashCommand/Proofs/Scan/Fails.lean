import SlashCommand.Proofs.Scan.Moves
import SlashCommand.Proofs.Scan.Stops

/-!
# Where a scan fails

`Fails` has one case for each way in which a step fails, with what is ahead there and with the error,
and `fails_of_parameterStep` says that there are no others.  A step that fails has stored nothing and
has gone on by a backslash at most.

Together with `Moves` and `Stops` this is all that a step can do, so that what every step keeps is
proved from the three (`scan_parameterStep`).
-/

namespace SlashCommand

namespace Scan

variable {form : Form} {mode : ScanMode} {field : Field} {s t : Scan} {i : Nat} {q : Quote}
  {e : GrammarError}

/-- A quotation fails if there is nothing between its marks, or, in a command that is executed, if it
is cut short. -/
inductive QuotedFails (mode : ScanMode) (q : Quote) (s : Scan) : Scan → GrammarError → Prop
  | empty {r : List Char} : s.ahead = q.char :: r → s.cursor = s.tokenStart + 1 →
      QuotedFails mode q s s .emptyValue
  | cut {t : Scan} : mode = .execute → CutsQuotation q s t →
      QuotedFails mode q s t (.missingQuote q)

/-- The ways in which a step fails. -/
inductive Fails (form : Form) (mode : ScanMode) (s : Scan) : Scan → GrammarError → Prop
  | position {c : Char} {r : List Char} : s.state = .startParameter → s.ahead = c :: r → c ≠ '-' →
      form.fields.findIdx? (·.position == ((s.positionals + 1 : Nat) : Int)) = none →
      (form.fields.findIdx? fun f => f.isRest && !s.values.contains f.name) = none →
      Fails form mode s s.countPositional (.noArgumentPosition (s.positionals + 1))
  | flag : s.state = .flagName →
      (s.ahead = [] ∧ mode = .execute ∨ ∃ c r, s.ahead = c :: r ∧ ¬ IsNameChar c) →
      (form.fields.findIdx? fun f => Text.eqIgnoreCase f.flagName s.token) = none →
      Fails form mode s s (.unexpectedFlag s.token)
  | equals {i : Nat} {r : List Char} : s.state = .value i (.separator true) → s.ahead = '=' :: r →
      Fails form mode s s.markToken .multipleEquals
  | blank {i : Nat} {c : Char} {r : List Char} : s.state = .value i .start → s.ahead = c :: r →
      Text.isBlank c = true → Fails form mode s s.beginToken (.unexpectedCharacter c)
  | quotedValue {i : Nat} {q : Quote} {t : Scan} {e : GrammarError} :
      s.state = .value i (.quoted q) → QuotedFails mode q s t e → Fails form mode s t e
  | behindQuotation {i : Nat} {q : Quote} {c : Char} {r : List Char} :
      s.state = .value i (.endQuoted q) → s.ahead = c :: r → Text.isBlank c = false →
      Fails form mode s s (.unexpectedCharacter c)
  | missing {i : Nat} {field : Field} : form.fields[i]? = some field → s.state = .value i .endBare →
      s.token = "" → (mode = .autocomplete → s.ahead ≠ []) →
      Fails form mode s s (.missingFieldValue field.name)
  | listCut {i : Nat} {stage : ListStage} :
      stage = .start ∨ stage = .next ∨ stage = .separator → s.state = .list i stage →
      mode = .execute → s.ahead = [] → Fails form mode s s.beginToken .missingListEnd
  | elementCut {i : Nat} : s.state = .list i .bare → mode = .execute → s.ahead = [] →
      Fails form mode s s .missingListEnd
  | noElement {i : Nat} {c : Char} {r : List Char} : s.state = .list i .next → s.ahead = c :: r →
      c = ']' ∨ c = ',' → Fails form mode s s .emptyValue
  | emptyElement {i : Nat} {c : Char} {r : List Char} : s.state = .list i .elementStart →
      s.ahead = c :: r → c = ',' ∨ c = ']' → Fails form mode s s.beginToken .emptyValue
  | quotedElement {i : Nat} {q : Quote} {t : Scan} {e : GrammarError} :
      s.state = .list i (.quoted q) → QuotedFails mode q s t e → Fails form mode s t e
  | inElement {i : Nat} {c : Char} {r : List Char} : s.state = .list i .bare → s.ahead = c :: r →
      c = '[' ∨ c = '"' ∨ c = '\x60' → Fails form mode s s (.unexpectedCharacter c)
  | behindElement {i : Nat} {c : Char} {r : List Char} : s.state = .list i .separator →
      s.ahead = c :: r → Text.isBlank c = false → Fails form mode s s (.unexpectedCharacter c)
  | behindList {i : Nat} {c : Char} {r : List Char} : s.state = .listEnd i → s.ahead = c :: r →
      Text.isBlank c = false → Fails form mode s s.beginToken (.unexpectedCharacter c)

/-! ## Single steps -/

theorem cutShort_fail {e' : GrammarError} (h : cutShort mode s e' = .fail t e) :
    mode = .execute ∧ t = s ∧ e = e' := by
  cases mode with
  | autocomplete => cases h
  | execute =>
    obtain ⟨rfl, rfl⟩ := Step.fail.inj h
    exact ⟨rfl, rfl, rfl⟩

theorem fails_of_parameterStartStep (hstate : s.state = .startParameter)
    (h : parameterStartStep form s = .fail t e) : Fails form mode s t e := by
  unfold parameterStartStep at h
  split at h
  · cases h
  · cases h
  · rename_i c hdash hc
    obtain ⟨r, hahead⟩ := ahead_of_peek? hc
    dsimp only at h
    split at h
    · cases h
    · rename_i hnone
      split at h
      · cases h
      · rename_i hrest
        obtain ⟨rfl, rfl⟩ := Step.fail.inj h
        exact .position hstate hahead hdash hnone hrest

theorem fails_of_flagEndStep (hstate : s.state = .flagName)
    (hend : s.ahead = [] ∧ mode = .execute ∨ ∃ c r, s.ahead = c :: r ∧ ¬ IsNameChar c)
    (h : flagEndStep form s = .fail t e) : Fails form mode s t e := by
  unfold flagEndStep at h
  split at h
  · cases h
  · rename_i hnone
    obtain ⟨rfl, rfl⟩ := Step.fail.inj h
    exact .flag hstate hend hnone

theorem fails_of_flagNameStep (hstate : s.state = .flagName)
    (h : flagNameStep form mode s = .fail t e) : Fails form mode s t e := by
  unfold flagNameStep at h
  split at h
  · rename_i hnone
    split at h
    · cases h
    · rename_i hmode
      have hexecute : mode = .execute := by
        cases mode with
        | autocomplete => exact absurd rfl hmode
        | execute => rfl
      exact fails_of_flagEndStep hstate (.inl ⟨ahead_of_peek?_none hnone, hexecute⟩) h
  · rename_i c hc
    split at h
    · rename_i hend
      obtain ⟨r, hahead⟩ := ahead_of_peek? hc
      exact fails_of_flagEndStep hstate (.inr ⟨c, r, hahead, fun hname => hname hend⟩) h
    · cases h

theorem quotedFails_of_quotedStep {closed : ScanState}
    (h : quotedStep mode q closed s = .fail t e) : QuotedFails mode q s t e := by
  cases hahead : s.ahead with
  | nil =>
    rw [quotedStep_nil hahead] at h
    obtain ⟨hmode, rfl, rfl⟩ := cutShort_fail h
    exact .cut hmode (.nil hahead)
  | cons c r =>
    by_cases hclose : c = q.char
    · rw [hclose] at hahead
      rw [quotedStep_close hahead] at h
      split at h
      · rename_i hempty
        obtain ⟨rfl, rfl⟩ := Step.fail.inj h
        exact .empty hahead hempty
      · cases h
    · by_cases hescape : c = '\\' ∧ q = .double
      · obtain ⟨rfl, hq⟩ := hescape
        cases r with
        | nil =>
          rw [quotedStep_escape_nil hq hahead] at h
          obtain ⟨hmode, rfl, rfl⟩ := cutShort_fail h
          exact .cut hmode (.backslash hq hahead)
        | cons d r =>
          rw [quotedStep_escape hq hahead] at h
          cases h
      · rw [quotedStep_plain hahead hclose hescape] at h
        cases h

theorem fails_of_valueSeparatorStep {equalsSeen : Bool}
    (hstate : s.state = .value i (.separator equalsSeen))
    (h : valueSeparatorStep mode i equalsSeen s = .fail t e) : Fails form mode s t e := by
  unfold valueSeparatorStep at h
  dsimp only at h
  split at h
  · split at h
    · cases h
    · cases h
  · rename_i c hc
    split at h
    · rename_i hequals
      obtain ⟨r, hahead⟩ := ahead_of_peek? (s := s.markToken) hc
      rw [hequals] at hahead
      split at h
      · rename_i hseen
        obtain ⟨rfl, rfl⟩ := Step.fail.inj h
        rw [hseen] at hstate
        exact .equals hstate hahead
      · cases h
    · split at h
      · cases h
      · cases h

theorem fails_of_valueStartStep (hstate : s.state = .value i .start)
    (h : valueStartStep field i s = .fail t e) : Fails form mode s t e := by
  unfold valueStartStep at h
  dsimp only at h
  split at h
  · cases h
  · rename_i c hc
    obtain ⟨r, hahead⟩ := ahead_of_peek? (s := s.beginToken) hc
    split at h
    · cases h
    · split at h
      · cases h
      · split at h
        · cases h
        · split at h
          · rename_i hblank
            obtain ⟨rfl, rfl⟩ := Step.fail.inj h
            exact .blank hstate hahead hblank
          · cases h

theorem not_fail_bareValueStep : bareValueStep i s ≠ .fail t e := by
  unfold bareValueStep
  repeat' split
  all_goals exact nofun

/-- The end of a value fails in front of a character that is not expected, or for want of a token. -/
theorem valueEndStep_fail {quoted : Bool} (h : valueEndStep mode field quoted s = .fail t e) :
    t = s ∧ (quoted = true ∧ (∃ c r, s.ahead = c :: r ∧ Text.isBlank c = false ∧
        e = .unexpectedCharacter c) ∨
      quoted = false ∧ s.token = "" ∧ (mode = .autocomplete → s.ahead ≠ []) ∧
        e = .missingFieldValue field.name) := by
  unfold valueEndStep at h
  split at h
  · rename_i c hc
    obtain ⟨rfl, rfl⟩ := Step.fail.inj h
    obtain ⟨hpeek, hnot⟩ := Option.filter_eq_some_iff.mp hc
    obtain ⟨hquoted, hblank⟩ := Bool.and_eq_true_iff.mp hnot
    obtain ⟨r, hahead⟩ := ahead_of_peek? hpeek
    exact ⟨rfl, .inl ⟨hquoted, c, r, hahead, by simpa using hblank, rfl⟩⟩
  · split at h
    · cases h
    · split at h
      · cases h
      · rename_i hmore
        split at h
        · rename_i hempty
          obtain ⟨rfl, rfl⟩ := Step.fail.inj h
          obtain ⟨hbare, hnil⟩ := Bool.and_eq_true_iff.mp hempty
          refine ⟨rfl, .inr ⟨by simpa using hbare, eq_of_beq hnil, fun hmode hahead => ?_, rfl⟩⟩
          exact hmore ⟨hmode, peek?_of_ahead_nil hahead⟩
        · dsimp only at h
          split at h
          · cases h
          · cases h

theorem fails_of_elementStep {stage : ListStage} {afterComma : Bool}
    (hstage : stage = .start ∧ afterComma = false ∨ stage = .next ∧ afterComma = true)
    (hstate : s.state = .list i stage) (h : elementStep mode i afterComma s = .fail t e) :
    Fails form mode s t e := by
  unfold elementStep at h
  split at h
  · rename_i hnone
    obtain ⟨hmode, rfl, rfl⟩ := cutShort_fail h
    refine .listCut ?_ hstate hmode (ahead_of_peek?_none hnone)
    exact hstage.imp And.left fun hnext => .inl hnext.1
  · rename_i c hc
    obtain ⟨r, hahead⟩ := ahead_of_peek? hc
    split at h
    · cases h
    · split at h
      · rename_i hafter
        obtain ⟨rfl, rfl⟩ := Step.fail.inj h
        rcases hstage with ⟨-, rfl⟩ | ⟨rfl, -⟩
        · exact absurd hafter.1 Bool.false_ne_true
        · exact .noElement hstate hahead hafter.2
      · split at h
        · cases h
        · cases h

theorem fails_of_elementStartStep (hstate : s.state = .list i .elementStart)
    (h : elementStartStep i s = .fail t e) : Fails form mode s t e := by
  unfold elementStartStep at h
  dsimp only at h
  split at h
  · cases h
  · rename_i c hc
    obtain ⟨r, hahead⟩ := ahead_of_peek? (s := s.beginToken) hc
    split at h
    · cases h
    · split at h
      · cases h
      · split at h
        · rename_i hend
          obtain ⟨rfl, rfl⟩ := Step.fail.inj h
          exact .emptyElement hstate hahead hend
        · cases h

theorem fails_of_bareElementStep (hstate : s.state = .list i .bare)
    (h : bareElementStep mode i s = .fail t e) : Fails form mode s t e := by
  unfold bareElementStep at h
  split at h
  · rename_i hnone
    obtain ⟨hmode, rfl, rfl⟩ := cutShort_fail h
    exact .elementCut hstate hmode (ahead_of_peek?_none hnone)
  · rename_i c hc
    obtain ⟨r, hahead⟩ := ahead_of_peek? hc
    split at h
    · cases h
    · split at h
      · rename_i hopen
        obtain ⟨rfl, rfl⟩ := Step.fail.inj h
        exact .inElement hstate hahead hopen
      · cases h

theorem fails_of_elementSeparatorStep (hstate : s.state = .list i .separator)
    (h : elementSeparatorStep mode i s = .fail t e) : Fails form mode s t e := by
  unfold elementSeparatorStep at h
  split at h
  · rename_i hnone
    obtain ⟨hmode, rfl, rfl⟩ := cutShort_fail h
    exact .listCut (.inr (.inr rfl)) hstate hmode (ahead_of_peek?_none hnone)
  · rename_i c hc
    obtain ⟨r, hahead⟩ := ahead_of_peek? hc
    split at h
    · cases h
    · rename_i hblank
      split at h
      · cases h
      · split at h
        · cases h
        · obtain ⟨rfl, rfl⟩ := Step.fail.inj h
          exact .behindElement hstate hahead (by simpa using hblank)

theorem fails_of_listEndStep (hstate : s.state = .listEnd i) (h : listEndStep s = .fail t e) :
    Fails form mode s t e := by
  unfold listEndStep at h
  dsimp only at h
  split at h
  · cases h
  · rename_i c hc
    obtain ⟨r, hahead⟩ := ahead_of_peek? (s := s.beginToken) hc
    split at h
    · cases h
    · rename_i hblank
      obtain ⟨rfl, rfl⟩ := Step.fail.inj h
      exact .behindList hstate hahead (by simpa using hblank)

/-! ## The inversion -/

theorem fails_of_valueStep {stage : ValueStage} (hfield : form.fields[i]? = some field)
    (hstate : s.state = .value i stage) (h : valueStep mode field i stage s = .fail t e) :
    Fails form mode s t e := by
  cases stage with
  | separator equalsSeen => exact fails_of_valueSeparatorStep hstate h
  | start => exact fails_of_valueStartStep hstate h
  | bare => exact absurd h not_fail_bareValueStep
  | quoted q => exact .quotedValue hstate (quotedFails_of_quotedStep h)
  | endBare =>
    obtain ⟨rfl, ⟨hquoted, -⟩ | ⟨-, htoken, hmore, rfl⟩⟩ := valueEndStep_fail h
    · cases hquoted
    · exact .missing hfield hstate htoken hmore
  | endQuoted q =>
    obtain ⟨rfl, ⟨-, c, r, hahead, hblank, rfl⟩ | ⟨hquoted, -⟩⟩ := valueEndStep_fail h
    · exact .behindQuotation hstate hahead hblank
    · cases hquoted

theorem fails_of_listStep {stage : ListStage} (hstate : s.state = .list i stage)
    (h : listStep mode field i stage s = .fail t e) : Fails form mode s t e := by
  cases stage with
  | start => exact fails_of_elementStep (.inl ⟨rfl, rfl⟩) hstate h
  | next => exact fails_of_elementStep (.inr ⟨rfl, rfl⟩) hstate h
  | elementStart => exact fails_of_elementStartStep hstate h
  | bare => exact fails_of_bareElementStep hstate h
  | quoted q => exact .quotedElement hstate (quotedFails_of_quotedStep h)
  | elementEnd => cases h
  | separator => exact fails_of_elementSeparatorStep hstate h

/-- **A step fails in no other way.** -/
theorem fails_of_parameterStep (h : parameterStep form mode s = .fail t e) :
    Fails form mode s t e := by
  cases hstate : s.state with
  | start | command | endCommand | commandSeparator | failed =>
    rw [parameterStep, hstate] at h
    cases h
  | startParameter =>
    rw [parameterStep, hstate] at h
    exact fails_of_parameterStartStep hstate h
  | parameterSeparator =>
    rw [parameterStep, hstate] at h
    simp only [parameterSeparatorStep] at h
    repeat' split at h
    all_goals cases h
  | flagDash =>
    rw [parameterStep, hstate] at h
    cases h
  | flagName =>
    rw [parameterStep, hstate] at h
    exact fails_of_flagNameStep hstate h
  | value i stage =>
    cases hfield : form.fields[i]? with
    | some field =>
      rw [parameterStep_value hfield hstate] at h
      exact fails_of_valueStep hfield hstate h
    | none =>
      simp only [parameterStep, hstate, hfield] at h
      cases h
  | list i stage =>
    cases hfield : form.fields[i]? with
    | some field =>
      rw [parameterStep_list hfield hstate] at h
      exact fails_of_listStep hstate h
    | none =>
      simp only [parameterStep, hstate, hfield] at h
      cases h
  | listEnd i =>
    rw [parameterStep, hstate] at h
    exact fails_of_listEndStep hstate h
  | rest i =>
    cases hfield : form.fields[i]? with
    | some field =>
      rw [step_rest hfield hstate] at h
      cases h
    | none =>
      simp only [parameterStep, hstate, hfield] at h
      cases h

/-! ## All that a step does -/

theorem QuotedFails.values_eq (h : QuotedFails mode q s t e) : t.values = s.values := by
  cases h with
  | empty => rfl
  | cut _ hcut => exact hcut.values_eq

/-- A step that fails has stored nothing. -/
theorem Fails.values_eq (h : Fails form mode s t e) : t.values = s.values := by
  cases h with
  | quotedValue _ hquoted | quotedElement _ hquoted => exact hquoted.values_eq
  | _ => rfl

theorem QuotedFails.state_eq (h : QuotedFails mode q s t e) : t.state = s.state := by
  cases h with
  | empty => rfl
  | cut _ hcut => exact hcut.state_eq

/-- Nor does it change the state, before the error is put in its place. -/
theorem Fails.state_eq (h : Fails form mode s t e) : t.state = s.state := by
  cases h with
  | quotedValue _ hquoted | quotedElement _ hquoted => exact hquoted.state_eq
  | _ => rfl

/-- While a command is typed, nothing fails at its end. -/
theorem Fails.ahead_ne_nil (h : Fails form .autocomplete s t e) : s.ahead ≠ [] := by
  intro hnil
  cases h with
  | position _ hahead | equals _ hahead | blank _ hahead | behindQuotation _ hahead
  | noElement _ hahead | emptyElement _ hahead | inElement _ hahead | behindElement _ hahead
  | behindList _ hahead =>
    rw [hnil] at hahead
    cases hahead
  | flag _ hend =>
    rcases hend with ⟨-, hmode⟩ | ⟨c, r, hahead, -⟩
    · cases hmode
    · rw [hnil] at hahead
      cases hahead
  | quotedValue _ hquoted | quotedElement _ hquoted =>
    cases hquoted with
    | empty hahead =>
      rw [hnil] at hahead
      cases hahead
    | cut hmode => cases hmode
  | missing _ _ _ hmore => exact hmore rfl hnil
  | listCut _ _ hmode | elementCut _ hmode => cases hmode

/-- What is true of a scan that a step makes, however the run goes on behind it. -/
theorem scan_parameterStep {P : Scan → Prop} (hnext : ∀ t, Moves form mode s t → P t)
    (hstop : ∀ t, Stops form mode s t → P t) (hfail : ∀ t e, Fails form mode s t e → P t)
    (hstay : P s) : P (parameterStep form mode s).scan := by
  cases hstep : parameterStep form mode s with
  | next t => exact hnext t (moves_of_parameterStep hstep)
  | stop t =>
    obtain hstops | ⟨-, rfl⟩ := stops_of_parameterStep hstep
    · exact hstop t hstops
    · exact hstay
  | fail t e => exact hfail t e (fails_of_parameterStep hstep)

end Scan

end SlashCommand
