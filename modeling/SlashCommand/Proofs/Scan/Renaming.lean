import SlashCommand.Proofs.Binding.Rearrangement
import SlashCommand.Proofs.Scan.Run

/-!
# Scans with another form

A state inside a value names its field by its place in the form.  Where the fields of a form are in
another order, a scan has the same course with the places of that order: `renamed` is the scan with
the other places, and every step of a renamed scan is the renamed step (`parameterStep_renamed`), so
that the run of a renamed scan is the renamed run (`readForm_renamed`).
-/

namespace SlashCommand

/-- The state with other places for the fields. -/
def ScanState.mapField (place : Nat → Nat) : ScanState → ScanState
  | value i stage => value (place i) stage
  | list i stage => list (place i) stage
  | listEnd i => listEnd (place i)
  | rest i => rest (place i)
  | state => state

namespace Scan

/-! ## Renamed scans -/

/-- The scan with other places for the fields, and with the form and the bindings of another. -/
def renamed (place : Nat → Nat) (t s : Scan) : Scan :=
  { s with
    state := s.state.mapField place, binding := t.binding, candidates := t.candidates
    form := t.form }

/-- The step with every scan in it changed. -/
def Step.map (g : Scan → Scan) : Step → Step
  | next s => next (g s)
  | stop s => stop (g s)
  | fail s e => fail (g s) e

theorem Step.related_map {g : Scan → Scan} (step : Step) :
    Step.Related (fun s s' => s' = g s) step (step.map g) := by
  cases step with
  | next s => exact .next rfl
  | stop s => exact .stop rfl
  | fail s e => exact .fail rfl

variable {form form' : Form} {mode : ScanMode} {field : Field} {place : Nat → Nat} {s t : Scan}
  {i : Nat}

theorem renamed_token : (renamed place t s).token = s.token := rfl

theorem renamed_state : (renamed place t s).state = s.state.mapField place := rfl

theorem renamed_positionals : (renamed place t s).positionals = s.positionals := rfl

theorem renamed_values : (renamed place t s).values = s.values := rfl

theorem renamed_peek? : (renamed place t s).peek? = s.peek? := rfl

theorem renamed_advance_peek? : (renamed place t s).advance.peek? = s.advance.peek? := rfl

theorem peek?_beginToken : s.beginToken.peek? = s.peek? := rfl

theorem peek?_markToken : s.markToken.peek? = s.peek? := rfl

theorem renamed_beginToken_peek? : (renamed place t s).beginToken.peek? = s.peek? := rfl

theorem renamed_markToken_peek? : (renamed place t s).markToken.peek? = s.peek? := rfl

/-! ## Steps in a value -/

theorem cutShort_renamed (e : GrammarError) :
    cutShort mode (renamed place t s) e = (cutShort mode s e).map (renamed place t) := by
  cases mode with
  | execute => rfl
  | autocomplete => rfl

theorem quotedStep_renamed {q : Quote} (closed : ScanState) :
    quotedStep mode q (closed.mapField place) (renamed place t s) =
      (quotedStep mode q closed s).map (renamed place t) := by
  unfold quotedStep
  rw [renamed_peek?, renamed_advance_peek?]
  cases s.peek? with
  | none => exact cutShort_renamed _
  | some c =>
    dsimp only
    by_cases hclose : c = q.char
    · rw [if_pos hclose, if_pos hclose]
      change (if s.cursor = s.tokenStart + 1 then _ else _) = _
      split
      · rfl
      · rfl
    · rw [if_neg hclose, if_neg hclose]
      split
      · cases s.advance.peek? with
        | none => exact cutShort_renamed (s := s.advance) _
        | some d => rfl
      · rfl

theorem valueEndStep_renamed {quoted : Bool} :
    valueEndStep mode field quoted (renamed place t s) =
      (valueEndStep mode field quoted s).map (renamed place t) := by
  unfold valueEndStep
  rw [renamed_peek?, renamed_token]
  cases s.peek?.filter fun c => quoted && !Text.isBlank c with
  | some c => rfl
  | none =>
    dsimp only
    split
    · rfl
    · split
      · rfl
      · split
        · rfl
        · change (if s.peek? = none then _ else _) =
            Step.map _ (if s.peek? = none then _ else _)
          split
          · rfl
          · rfl

theorem valueStep_renamed {stage : ValueStage} :
    valueStep mode field (place i) stage (renamed place t s) =
      (valueStep mode field i stage s).map (renamed place t) := by
  cases stage with
  | separator equalsSeen =>
    simp only [valueStep, valueSeparatorStep]
    rw [renamed_markToken_peek?, peek?_markToken]
    cases s.peek? with
    | none =>
      dsimp only
      split
      · rfl
      · rfl
    | some c =>
      dsimp only
      repeat' split
      all_goals rfl
  | start =>
    simp only [valueStep, valueStartStep]
    rw [renamed_beginToken_peek?, peek?_beginToken]
    cases s.peek? with
    | none => rfl
    | some c =>
      dsimp only
      repeat' split
      all_goals rfl
  | bare =>
    simp only [valueStep, bareValueStep]
    rw [renamed_peek?]
    cases s.peek? with
    | none => rfl
    | some c =>
      dsimp only
      repeat' split
      all_goals rfl
  | quoted q => exact quotedStep_renamed (.value i (.endQuoted q))
  | endBare => exact valueEndStep_renamed
  | endQuoted q => exact valueEndStep_renamed

/-! ## Steps in a list -/

theorem elementStep_renamed {afterComma : Bool} :
    elementStep mode (place i) afterComma (renamed place t s) =
      (elementStep mode i afterComma s).map (renamed place t) := by
  unfold elementStep
  rw [renamed_peek?]
  cases s.peek? with
  | none => exact cutShort_renamed (s := s.beginToken) _
  | some c =>
    dsimp only
    repeat' split
    all_goals rfl

theorem bareElementStep_renamed :
    bareElementStep mode (place i) (renamed place t s) =
      (bareElementStep mode i s).map (renamed place t) := by
  unfold bareElementStep
  rw [renamed_peek?]
  cases s.peek? with
  | none => exact cutShort_renamed _
  | some c =>
    dsimp only
    repeat' split
    all_goals rfl

theorem elementSeparatorStep_renamed :
    elementSeparatorStep mode (place i) (renamed place t s) =
      (elementSeparatorStep mode i s).map (renamed place t) := by
  unfold elementSeparatorStep
  rw [renamed_peek?]
  cases s.peek? with
  | none => exact cutShort_renamed (s := s.beginToken) _
  | some c =>
    dsimp only
    repeat' split
    all_goals rfl

theorem listStep_renamed {stage : ListStage} :
    listStep mode field (place i) stage (renamed place t s) =
      (listStep mode field i stage s).map (renamed place t) := by
  cases stage with
  | start => exact elementStep_renamed
  | next => exact elementStep_renamed
  | elementStart =>
    simp only [listStep, elementStartStep]
    rw [renamed_beginToken_peek?, peek?_beginToken]
    cases s.peek? with
    | none => rfl
    | some c =>
      dsimp only
      repeat' split
      all_goals rfl
  | bare => exact bareElementStep_renamed
  | quoted q => exact quotedStep_renamed (.list i .elementEnd)
  | elementEnd => rfl
  | separator => exact elementSeparatorStep_renamed

/-! ## Steps between parameters -/

theorem parameterSeparatorStep_renamed :
    parameterSeparatorStep (renamed place t s) =
      (parameterSeparatorStep s).map (renamed place t) := by
  simp only [parameterSeparatorStep]
  rw [renamed_markToken_peek?, peek?_markToken]
  cases s.peek? with
  | none => rfl
  | some c =>
    dsimp only
    split
    · rfl
    · rfl

theorem flagDashStep_renamed :
    flagDashStep (renamed place t s) = (flagDashStep s).map (renamed place t) := by
  unfold flagDashStep
  rw [renamed_peek?]
  split
  · rfl
  · rfl

theorem listEndStep_renamed :
    listEndStep (renamed place t s) = (listEndStep s).map (renamed place t) := by
  simp only [listEndStep]
  rw [renamed_beginToken_peek?, peek?_beginToken]
  cases s.peek? with
  | none => rfl
  | some c =>
    dsimp only
    split
    · rfl
    · rfl

/-! ## Steps that look a field up -/

theorem parameterStartStep_renamed (h : form.Renaming form' place) :
    parameterStartStep form' (renamed place t s) =
      (parameterStartStep form s).map (renamed place t) := by
  unfold parameterStartStep
  rw [renamed_peek?]
  split
  · rfl
  · rfl
  · dsimp only
    rw [h.position, h.rest, renamed_positionals, renamed_values]
    cases form.fields.findIdx? (·.position == ((s.positionals + 1 : Nat) : Int)) with
    | some i => rfl
    | none =>
      cases form.fields.findIdx? fun f => f.isRest && !s.values.contains f.name with
      | some i => rfl
      | none => rfl

theorem flagEndStep_renamed (h : form.Renaming form' place) :
    flagEndStep form' (renamed place t s) = (flagEndStep form s).map (renamed place t) := by
  unfold flagEndStep
  rw [renamed_token, h.flag]
  cases form.fields.findIdx? fun f => Text.eqIgnoreCase f.flagName s.token with
  | none => rfl
  | some i => rfl

theorem flagNameStep_renamed (h : form.Renaming form' place) :
    flagNameStep form' mode (renamed place t s) =
      (flagNameStep form mode s).map (renamed place t) := by
  unfold flagNameStep
  rw [renamed_peek?, flagEndStep_renamed h]
  cases s.peek? with
  | none =>
    dsimp only
    split
    · rfl
    · rfl
  | some c =>
    dsimp only
    split
    · rfl
    · rfl

/-! ## The second phase -/

/-- A step of a renamed scan with the other form is the renamed step. -/
theorem parameterStep_renamed (h : form.Renaming form' place) :
    parameterStep form' mode (renamed place t s) =
      (parameterStep form mode s).map (renamed place t) := by
  unfold parameterStep
  rw [renamed_state]
  cases s.state with
  | startParameter => exact parameterStartStep_renamed h
  | parameterSeparator => exact parameterSeparatorStep_renamed
  | flagDash => exact flagDashStep_renamed
  | flagName => exact flagNameStep_renamed h
  | value i stage =>
    dsimp only [ScanState.mapField]
    rw [h.field i]
    cases form.fields[i]? with
    | none => rfl
    | some field => exact valueStep_renamed
  | list i stage =>
    dsimp only [ScanState.mapField]
    rw [h.field i]
    cases form.fields[i]? with
    | none => rfl
    | some field => exact listStep_renamed
  | listEnd i => exact listEndStep_renamed
  | rest i =>
    dsimp only [ScanState.mapField]
    rw [h.field i]
    cases form.fields[i]? with
    | none => rfl
    | some field => rfl
  | _ => rfl

/-- With the fields in other places a scan has the same course. -/
theorem readForm_renamed (h : form.Renaming form' place) :
    readForm form' mode (renamed place t s) = renamed place t (readForm form mode s) := by
  refine run_related (fun s s' => s' = renamed place t s) (fun s s' hs => ?_) (fun s s' e hs => ?_)
    rfl
  · rw [hs, parameterStep_renamed h]
    exact Step.related_map _
  · rw [hs]
    rfl

end Scan

end SlashCommand
