import SlashCommand.Proofs.Scan.Steps

/-!
# Where a scan stops

A scan for typing stops at the end of the text, wherever that is.  A command that is executed stops
there only where it is complete.  Either stops in front of the rest of the line, which it takes.
`Stops` has one case for each of these places, and `stops_of_parameterStep` says that there are no
others, so that what is said of the end of a scan is proved case by case and no step is opened for
it.

Between tokens the last step moves the beginning of the token to the end of the text.  Inside a
token it changes nothing, but a backslash at the very end of a quotation is passed over.
-/

namespace SlashCommand

/-- The state belongs to the second phase of a scan that has not failed. -/
def ScanState.isParameter : ScanState → Bool
  | start => false
  | command => false
  | endCommand => false
  | commandSeparator => false
  | failed _ => false
  | _ => true

namespace Scan

variable {form : Form} {mode : ScanMode} {field : Field} {s t : Scan} {i : Nat} {q : Quote}

/-- The scan reads a parameter of the form. -/
structure InForm (form : Form) (s : Scan) : Prop where
  isParameter : s.state.isParameter = true
  field_lt : ∀ i, s.state.field? = some i → i < form.fields.length

theorem not_inForm (hi : s.state.field? = some i) (hfield : form.fields[i]? = none) :
    ¬ InForm form s := fun h => by
  have hlt := h.field_lt i hi
  rw [List.getElem?_eq_getElem hlt] at hfield
  cases hfield

/-- A quotation that is cut short by the end of the text. -/
inductive CutsQuotation (q : Quote) (s : Scan) : Scan → Prop
  | nil : s.ahead = [] → CutsQuotation q s s
  | backslash : q = .double → s.ahead = ['\\'] → CutsQuotation q s s.advance

/-- The ways in which a scan stops. -/
inductive Stops (form : Form) : ScanMode → Scan → Scan → Prop
  | startParameter {mode : ScanMode} {s : Scan} : s.state = .startParameter → s.ahead = [] →
      Stops form mode s s.beginToken
  | parameterSeparator {mode : ScanMode} {s : Scan} : s.state = .parameterSeparator →
      s.ahead = [] → Stops form mode s (s.markToken.goto .startParameter)
  | flagName {s : Scan} : s.state = .flagName → s.ahead = [] → Stops form .autocomplete s s
  | separator {s : Scan} {i : Nat} {equalsSeen : Bool} {field : Field} :
      form.fields[i]? = some field → s.state = .value i (.separator equalsSeen) → s.ahead = [] →
      Stops form .autocomplete s s.markToken
  | quotedValue {s t : Scan} {i : Nat} {q : Quote} {field : Field} :
      form.fields[i]? = some field → s.state = .value i (.quoted q) → CutsQuotation q s t →
      Stops form .autocomplete s t
  | endBare {s : Scan} {i : Nat} {field : Field} : form.fields[i]? = some field →
      s.state = .value i .endBare → s.ahead = [] → Stops form .autocomplete s s
  | endQuoted {s : Scan} {i : Nat} {q : Quote} {field : Field} : form.fields[i]? = some field →
      s.state = .value i (.endQuoted q) → s.ahead = [] → Stops form .autocomplete s s
  /-- The last value of a command that is executed. -/
  | close {s : Scan} {i : Nat} {stage : ValueStage} {field : Field} :
      form.fields[i]? = some field → s.state = .value i stage →
      stage = .endBare ∧ s.token ≠ "" ∨ (∃ q, stage = .endQuoted q) →
      (field.type = .bool → acceptsBool .execute s.token = true) → s.ahead = [] →
      Stops form .execute s (s.closeValue field)
  | element {s : Scan} {i : Nat} {stage : ListStage} {field : Field} :
      form.fields[i]? = some field → s.state = .list i stage → stage = .start ∨ stage = .next →
      s.ahead = [] → Stops form .autocomplete s s.beginToken
  | bareElement {s : Scan} {i : Nat} {field : Field} : form.fields[i]? = some field →
      s.state = .list i .bare → s.ahead = [] → Stops form .autocomplete s s
  | quotedElement {s t : Scan} {i : Nat} {q : Quote} {field : Field} :
      form.fields[i]? = some field → s.state = .list i (.quoted q) → CutsQuotation q s t →
      Stops form .autocomplete s t
  | elementSeparator {s : Scan} {i : Nat} {field : Field} : form.fields[i]? = some field →
      s.state = .list i .separator → s.ahead = [] → Stops form .autocomplete s s.beginToken
  | listEnd {mode : ScanMode} {s : Scan} {i : Nat} : s.state = .listEnd i → s.ahead = [] →
      Stops form mode s s.beginToken
  | rest {mode : ScanMode} {s : Scan} {i : Nat} {field : Field} : form.fields[i]? = some field →
      s.state = .rest i →
      Stops form mode s { s.assign field.name
        (.ofToken field.multiselect (String.ofList s.ahead)) with
        cursor := s.text.length, token := String.ofList s.ahead }

/-! ## Single steps -/

theorem cutShort_stop {e : GrammarError} (h : cutShort mode s e = .stop t) :
    mode = .autocomplete ∧ t = s := by
  cases mode with
  | autocomplete => exact ⟨rfl, (Step.stop.inj h).symm⟩
  | execute => cases h

theorem parameterStartStep_stop (h : parameterStartStep form s = .stop t) :
    s.ahead = [] ∧ t = s.beginToken := by
  unfold parameterStartStep at h
  split at h
  · rename_i hnone
    exact ⟨ahead_of_peek?_none hnone, (Step.stop.inj h).symm⟩
  · cases h
  · dsimp only at h
    repeat' split at h
    all_goals cases h

theorem parameterSeparatorStep_stop (h : parameterSeparatorStep s = .stop t) :
    s.ahead = [] ∧ t = s.markToken.goto .startParameter := by
  unfold parameterSeparatorStep at h
  dsimp only at h
  split at h
  · rename_i hnone
    exact ⟨ahead_of_peek?_none (s := s.markToken) hnone, (Step.stop.inj h).symm⟩
  · split at h
    · cases h
    · cases h

theorem not_stop_flagEndStep : flagEndStep form s ≠ .stop t := by
  unfold flagEndStep
  split
  · exact nofun
  · exact nofun

theorem flagNameStep_stop (h : flagNameStep form mode s = .stop t) :
    mode = .autocomplete ∧ s.ahead = [] ∧ t = s := by
  unfold flagNameStep at h
  split at h
  · rename_i hnone
    split at h
    · rename_i hmode
      exact ⟨hmode, ahead_of_peek?_none hnone, (Step.stop.inj h).symm⟩
    · exact absurd h not_stop_flagEndStep
  · split at h
    · exact absurd h not_stop_flagEndStep
    · cases h

theorem valueSeparatorStep_stop {equalsSeen : Bool}
    (h : valueSeparatorStep mode i equalsSeen s = .stop t) :
    mode = .autocomplete ∧ s.ahead = [] ∧ t = s.markToken := by
  unfold valueSeparatorStep at h
  dsimp only at h
  split at h
  · rename_i hnone
    split at h
    · rename_i hmode
      exact ⟨hmode, ahead_of_peek?_none (s := s.markToken) hnone, (Step.stop.inj h).symm⟩
    · cases h
  · repeat' split at h
    all_goals cases h

theorem not_stop_valueStartStep : valueStartStep field i s ≠ .stop t := by
  unfold valueStartStep
  dsimp only
  repeat' split
  all_goals exact nofun

theorem not_stop_bareValueStep : bareValueStep i s ≠ .stop t := by
  unfold bareValueStep
  repeat' split
  all_goals exact nofun

theorem quotedStep_stop {closed : ScanState} (h : quotedStep mode q closed s = .stop t) :
    mode = .autocomplete ∧ CutsQuotation q s t := by
  cases hahead : s.ahead with
  | nil =>
    rw [quotedStep_nil hahead] at h
    obtain ⟨hmode, rfl⟩ := cutShort_stop h
    exact ⟨hmode, .nil hahead⟩
  | cons c r =>
    by_cases hclose : c = q.char
    · rw [hclose] at hahead
      rw [quotedStep_close hahead] at h
      split at h
      · cases h
      · cases h
    · by_cases hescape : c = '\\' ∧ q = .double
      · obtain ⟨rfl, hq⟩ := hescape
        cases r with
        | nil =>
          rw [quotedStep_escape_nil hq hahead] at h
          obtain ⟨hmode, rfl⟩ := cutShort_stop h
          exact ⟨hmode, .backslash hq hahead⟩
        | cons d r =>
          rw [quotedStep_escape hq hahead] at h
          cases h
      · rw [quotedStep_plain hahead hclose hescape] at h
        cases h

theorem valueEndStep_stop {quoted : Bool} (h : valueEndStep mode field quoted s = .stop t) :
    s.ahead = [] ∧ (mode = .autocomplete ∧ t = s ∨
      mode = .execute ∧ t = s.closeValue field ∧ (quoted = false → s.token ≠ "") ∧
        (field.type = .bool → acceptsBool mode s.token = true)) := by
  unfold valueEndStep at h
  split at h
  · cases h
  · split at h
    · cases h
    · rename_i haccept
      split at h
      · rename_i hend
        exact ⟨ahead_of_peek?_none hend.2, .inl ⟨hend.1, (Step.stop.inj h).symm⟩⟩
      · rename_i hmore
        split at h
        · cases h
        · rename_i htoken
          dsimp only at h
          split at h
          · rename_i hnone
            have hnil : s.peek? = none := hnone
            have hmode : mode = .execute := by
              cases mode with
              | autocomplete => exact absurd ⟨rfl, hnil⟩ hmore
              | execute => rfl
            refine ⟨ahead_of_peek?_none hnil, .inr ⟨hmode, (Step.stop.inj h).symm, ?_, ?_⟩⟩
            · rintro rfl
              simpa using htoken
            · intro hbool
              simpa [hbool] using haccept
          · cases h

theorem elementStep_stop {afterComma : Bool} (h : elementStep mode i afterComma s = .stop t) :
    mode = .autocomplete ∧ s.ahead = [] ∧ t = s.beginToken := by
  unfold elementStep at h
  split at h
  · rename_i hnone
    obtain ⟨hmode, rfl⟩ := cutShort_stop h
    exact ⟨hmode, ahead_of_peek?_none hnone, rfl⟩
  · repeat' split at h
    all_goals cases h

theorem not_stop_elementStartStep : elementStartStep i s ≠ .stop t := by
  unfold elementStartStep
  dsimp only
  repeat' split
  all_goals exact nofun

theorem bareElementStep_stop (h : bareElementStep mode i s = .stop t) :
    mode = .autocomplete ∧ s.ahead = [] ∧ t = s := by
  unfold bareElementStep at h
  split at h
  · rename_i hnone
    obtain ⟨hmode, rfl⟩ := cutShort_stop h
    exact ⟨hmode, ahead_of_peek?_none hnone, rfl⟩
  · repeat' split at h
    all_goals cases h

theorem elementSeparatorStep_stop (h : elementSeparatorStep mode i s = .stop t) :
    mode = .autocomplete ∧ s.ahead = [] ∧ t = s.beginToken := by
  unfold elementSeparatorStep at h
  split at h
  · rename_i hnone
    obtain ⟨hmode, rfl⟩ := cutShort_stop h
    exact ⟨hmode, ahead_of_peek?_none hnone, rfl⟩
  · repeat' split at h
    all_goals cases h

theorem listEndStep_stop (h : listEndStep s = .stop t) : s.ahead = [] ∧ t = s.beginToken := by
  unfold listEndStep at h
  dsimp only at h
  split at h
  · rename_i hnone
    exact ⟨ahead_of_peek?_none (s := s.beginToken) hnone, (Step.stop.inj h).symm⟩
  · split at h
    · cases h
    · cases h

/-! ## The inversion -/

theorem stops_of_valueStep {stage : ValueStage} (hfield : form.fields[i]? = some field)
    (hstate : s.state = .value i stage) (h : valueStep mode field i stage s = .stop t) :
    Stops form mode s t := by
  cases stage with
  | separator equalsSeen =>
    obtain ⟨rfl, hnil, rfl⟩ := valueSeparatorStep_stop h
    exact .separator hfield hstate hnil
  | start => exact absurd h not_stop_valueStartStep
  | bare => exact absurd h not_stop_bareValueStep
  | quoted q =>
    obtain ⟨rfl, hcut⟩ := quotedStep_stop h
    exact .quotedValue hfield hstate hcut
  | endBare =>
    obtain ⟨hnil, ⟨rfl, rfl⟩ | ⟨rfl, rfl, htoken, hbool⟩⟩ := valueEndStep_stop h
    · exact .endBare hfield hstate hnil
    · exact .close hfield hstate (.inl ⟨rfl, htoken rfl⟩) hbool hnil
  | endQuoted q =>
    obtain ⟨hnil, ⟨rfl, rfl⟩ | ⟨rfl, rfl, -, hbool⟩⟩ := valueEndStep_stop h
    · exact .endQuoted hfield hstate hnil
    · exact .close hfield hstate (.inr ⟨q, rfl⟩) hbool hnil

theorem stops_of_listStep {stage : ListStage} (hfield : form.fields[i]? = some field)
    (hstate : s.state = .list i stage) (h : listStep mode field i stage s = .stop t) :
    Stops form mode s t := by
  cases stage with
  | start =>
    obtain ⟨rfl, hnil, rfl⟩ := elementStep_stop h
    exact .element hfield hstate (.inl rfl) hnil
  | next =>
    obtain ⟨rfl, hnil, rfl⟩ := elementStep_stop h
    exact .element hfield hstate (.inr rfl) hnil
  | elementStart => exact absurd h not_stop_elementStartStep
  | bare =>
    obtain ⟨rfl, hnil, rfl⟩ := bareElementStep_stop h
    exact .bareElement hfield hstate hnil
  | quoted q =>
    obtain ⟨rfl, hcut⟩ := quotedStep_stop h
    exact .quotedElement hfield hstate hcut
  | elementEnd => cases h
  | separator =>
    obtain ⟨rfl, hnil, rfl⟩ := elementSeparatorStep_stop h
    exact .elementSeparator hfield hstate hnil

/-- **A scan that reads a parameter stops in no other way.**  Elsewhere there is nothing to be read. -/
theorem stops_of_parameterStep (h : parameterStep form mode s = .stop t) :
    Stops form mode s t ∨ ¬ InForm form s ∧ t = s := by
  cases hstate : s.state with
  | start | command | endCommand | commandSeparator | failed =>
    rw [parameterStep, hstate] at h
    refine .inr ⟨fun hs => ?_, (Step.stop.inj h).symm⟩
    have hparameter := hs.isParameter
    rw [hstate] at hparameter
    cases hparameter
  | startParameter =>
    rw [parameterStep, hstate] at h
    obtain ⟨hnil, rfl⟩ := parameterStartStep_stop h
    exact .inl (.startParameter hstate hnil)
  | parameterSeparator =>
    rw [parameterStep, hstate] at h
    obtain ⟨hnil, rfl⟩ := parameterSeparatorStep_stop h
    exact .inl (.parameterSeparator hstate hnil)
  | flagDash =>
    rw [parameterStep, hstate] at h
    cases h
  | flagName =>
    rw [parameterStep, hstate] at h
    obtain ⟨rfl, hnil, rfl⟩ := flagNameStep_stop h
    exact .inl (.flagName hstate hnil)
  | value i stage =>
    cases hfield : form.fields[i]? with
    | some field =>
      rw [parameterStep_value hfield hstate] at h
      exact .inl (stops_of_valueStep hfield hstate h)
    | none =>
      simp only [parameterStep, hstate, hfield] at h
      exact .inr ⟨not_inForm (by rw [hstate]; rfl) hfield, (Step.stop.inj h).symm⟩
  | list i stage =>
    cases hfield : form.fields[i]? with
    | some field =>
      rw [parameterStep_list hfield hstate] at h
      exact .inl (stops_of_listStep hfield hstate h)
    | none =>
      simp only [parameterStep, hstate, hfield] at h
      exact .inr ⟨not_inForm (by rw [hstate]; rfl) hfield, (Step.stop.inj h).symm⟩
  | listEnd i =>
    rw [parameterStep, hstate] at h
    obtain ⟨hnil, rfl⟩ := listEndStep_stop h
    exact .inl (.listEnd hstate hnil)
  | rest i =>
    cases hfield : form.fields[i]? with
    | some field =>
      rw [step_rest hfield hstate] at h
      obtain rfl := Step.stop.inj h
      exact .inl (.rest hfield hstate)
    | none =>
      simp only [parameterStep, hstate, hfield] at h
      exact .inr ⟨not_inForm (by rw [hstate]; rfl) hfield, (Step.stop.inj h).symm⟩

/-! ## What all of them have in common -/

theorem CutsQuotation.state_eq (h : CutsQuotation q s t) : t.state = s.state := by
  cases h with
  | nil | backslash => rfl

theorem CutsQuotation.values_eq (h : CutsQuotation q s t) : t.values = s.values := by
  cases h with
  | nil | backslash => rfl

theorem CutsQuotation.ahead_eq (h : CutsQuotation q s t) : t.ahead = [] := by
  cases h with
  | nil hnil => exact hnil
  | backslash _ hslash => exact ahead_advance hslash

/-- A command that is executed fails where a quotation is cut short. -/
theorem CutsQuotation.execute (h : CutsQuotation q s t) (closed : ScanState) :
    quotedStep .execute q closed s = .fail t (.missingQuote q) := by
  cases h with
  | nil hnil => exact quotedStep_nil hnil
  | backslash hq hslash => exact quotedStep_escape_nil hq hslash

namespace Stops

/-- A scan stops in the state that it is in.  Behind a parameter it is in front of the next one. -/
theorem state_eq (h : Stops form mode s t) :
    t.state = s.state ∨ s.state = .parameterSeparator ∧ t.state = .startParameter := by
  cases h with
  | parameterSeparator hstate => exact .inr ⟨hstate, rfl⟩
  | quotedValue _ _ hcut | quotedElement _ _ hcut => exact .inl hcut.state_eq
  | _ => exact .inl rfl

/-- No scan stops in a bare value, since it first ends the value. -/
theorem not_bare (h : Stops form mode s t) : s.state ≠ .value i .bare := by
  intro hbare
  cases h with
  | _ => simp_all

/-- Nor in front of an element that has come, or behind one that is yet to be appended. -/
theorem not_element (h : Stops form mode s t) :
    s.state ≠ .list i .elementStart ∧ s.state ≠ .list i .elementEnd := by
  cases h with
  | element _ hstate hstage =>
    rcases hstage with rfl | rfl
    · simp [hstate]
    · simp [hstate]
  | _ => simp_all

/-- A scan that stops in front of a parameter was there before, or behind the last one. -/
theorem of_startParameter (h : Stops form mode s t) (ht : t.state = .startParameter) :
    s.ahead = [] ∧ (s.state = .startParameter ∧ t = s.beginToken ∨
      s.state = .parameterSeparator ∧ t = s.markToken.goto .startParameter) := by
  cases h with
  | startParameter hstate hnil => exact ⟨hnil, .inl ⟨hstate, rfl⟩⟩
  | parameterSeparator hstate hnil => exact ⟨hnil, .inr ⟨hstate, rfl⟩⟩
  | quotedValue _ hstate hcut | quotedElement _ hstate hcut =>
    rw [hcut.state_eq, hstate] at ht
    cases ht
  | flagName hstate | separator _ hstate | endBare _ hstate | endQuoted _ hstate
  | close _ hstate | element _ hstate | bareElement _ hstate | elementSeparator _ hstate | listEnd hstate
  | rest _ hstate =>
    have hsame : s.state = .startParameter := ht
    rw [hstate] at hsame
    cases hsame

/-- A scan that stops in the name of a flag changes nothing there. -/
theorem of_flagName (h : Stops form mode s t) (ht : t.state = .flagName) :
    s.state = .flagName ∧ s.ahead = [] ∧ t = s := by
  cases h with
  | flagName hstate hnil => exact ⟨hstate, hnil, rfl⟩
  | parameterSeparator => cases ht
  | quotedValue _ hstate hcut | quotedElement _ hstate hcut =>
    rw [hcut.state_eq, hstate] at ht
    cases ht
  | startParameter hstate | separator _ hstate | endBare _ hstate | endQuoted _ hstate
  | close _ hstate | element _ hstate | bareElement _ hstate | elementSeparator _ hstate | listEnd hstate
  | rest _ hstate =>
    have hsame : s.state = .flagName := ht
    rw [hstate] at hsame
    cases hsame

end Stops

end Scan

end SlashCommand
