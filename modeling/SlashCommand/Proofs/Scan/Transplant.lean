import SlashCommand.Proofs.Scan.Reach
import SlashCommand.Proofs.Scan.Renaming

/-!
# Scans of other texts

A step sees the text through the next character, behind a backslash through the one after it, and
where the rest of the line is taken through all that is ahead.  Where another text has the same
characters in another place, it makes the same step there: `transplanted` is the scan with another
text and with all positions moved, and the step of a transplanted scan is the transplanted step
(`parameterStep_transplanted`).
-/

namespace SlashCommand

/-- The state with the position of an error moved. -/
def ScanState.moved (k : Nat) : ScanState → ScanState
  | failed e => failed { e with position := k + e.position }
  | state => state

namespace Scan

/-- The scan in another text, where it stands `k` characters further on. -/
def transplanted (text : List Char) (k : Nat) (s : Scan) : Scan :=
  { s with text, state := s.state.moved k, cursor := k + s.cursor, tokenStart := k + s.tokenStart }

/-- A text between double quotes is being read. -/
def inDoubleQuotes : ScanState → Bool
  | .value _ (.quoted .double) => true
  | .list _ (.quoted .double) => true
  | _ => false

/-- What a step sees of the text of a scan stands in another text, `k` characters further on. -/
structure SeenIn (text : List Char) (k : Nat) (s : Scan) : Prop where
  peek : text[k + s.cursor]? = s.peek?
  escape : inDoubleQuotes s.state = true → s.peek? = some '\\' →
    text[k + s.cursor + 1]? = s.advance.peek?
  rest : ∀ i, s.state = .rest i → text.drop (k + s.cursor) = s.ahead ∧
    text.length = k + s.text.length

variable {form : Form} {mode : ScanMode} {field : Field} {s : Scan} {text : List Char} {i k : Nat}

theorem Step.map_ite (g : Scan → Scan) (p : Prop) [Decidable p] (a b : Step) :
    (if p then a else b).map g = if p then a.map g else b.map g :=
  apply_ite (Step.map g) p a b

theorem cutShort_transplanted (e : GrammarError) :
    cutShort mode (s.transplanted text k) e = (cutShort mode s e).map (transplanted text k) := by
  cases mode with
  | execute => rfl
  | autocomplete => rfl

/-! ## Steps -/

section

variable (h : text[k + s.cursor]? = s.peek?)

include h

theorem parameterStartStep_transplanted :
    parameterStartStep form (s.transplanted text k) =
      (parameterStartStep form s).map (transplanted text k) := by
  have hpeek : (s.transplanted text k).peek? = s.peek? := h
  unfold parameterStartStep
  rw [hpeek]
  split
  · rfl
  · rfl
  · dsimp only [transplanted]
    repeat' split
    all_goals rfl

theorem parameterSeparatorStep_transplanted :
    parameterSeparatorStep (s.transplanted text k) =
      (parameterSeparatorStep s).map (transplanted text k) := by
  have hpeek : (s.transplanted text k).markToken.peek? = s.markToken.peek? := h
  unfold parameterSeparatorStep
  dsimp only
  rw [hpeek]
  split
  · rfl
  · rw [Step.map_ite]
    rfl

theorem flagDashStep_transplanted :
    flagDashStep (s.transplanted text k) = (flagDashStep s).map (transplanted text k) := by
  have hpeek : (s.transplanted text k).peek? = s.peek? := h
  unfold flagDashStep
  dsimp only
  rw [hpeek]
  split
  · rfl
  · rfl

theorem flagNameStep_transplanted :
    flagNameStep form mode (s.transplanted text k) =
      (flagNameStep form mode s).map (transplanted text k) := by
  have hpeek : (s.transplanted text k).peek? = s.peek? := h
  have hend : flagEndStep form (s.transplanted text k) =
      (flagEndStep form s).map (transplanted text k) := by
    unfold flagEndStep
    dsimp only [transplanted]
    split
    · rfl
    · rfl
  unfold flagNameStep
  rw [hpeek, hend]
  split
  · rw [Step.map_ite]
    rfl
  · rw [Step.map_ite]
    rfl

theorem valueSeparatorStep_transplanted {equalsSeen : Bool} :
    valueSeparatorStep mode i equalsSeen (s.transplanted text k) =
      (valueSeparatorStep mode i equalsSeen s).map (transplanted text k) := by
  have hpeek : (s.transplanted text k).markToken.peek? = s.markToken.peek? := h
  unfold valueSeparatorStep
  dsimp only
  rw [hpeek]
  split
  · rw [Step.map_ite]
    rfl
  · simp only [Step.map_ite]
    rfl

theorem valueStartStep_transplanted :
    valueStartStep field i (s.transplanted text k) =
      (valueStartStep field i s).map (transplanted text k) := by
  have hpeek : (s.transplanted text k).beginToken.peek? = s.beginToken.peek? := h
  unfold valueStartStep
  dsimp only
  rw [hpeek]
  split
  · rfl
  · simp only [Step.map_ite]
    rfl

theorem bareValueStep_transplanted :
    bareValueStep i (s.transplanted text k) = (bareValueStep i s).map (transplanted text k) := by
  have hpeek : (s.transplanted text k).peek? = s.peek? := h
  unfold bareValueStep
  rw [hpeek]
  split
  · rfl
  · rw [Step.map_ite]
    rfl

theorem valueEndStep_transplanted {quoted : Bool} :
    valueEndStep mode field quoted (s.transplanted text k) =
      (valueEndStep mode field quoted s).map (transplanted text k) := by
  have hpeek : (s.transplanted text k).peek? = s.peek? := h
  have hbehind (v : Value) :
      ((s.transplanted text k).assign field.name v).clearToken.markToken.peek? =
        (s.assign field.name v).clearToken.markToken.peek? := h
  unfold valueEndStep
  dsimp only
  rw [hpeek]
  split
  · rfl
  · simp only [hbehind, Step.map_ite]
    rfl

theorem elementStep_transplanted {afterComma : Bool} :
    elementStep mode i afterComma (s.transplanted text k) =
      (elementStep mode i afterComma s).map (transplanted text k) := by
  have hpeek : (s.transplanted text k).peek? = s.peek? := h
  unfold elementStep
  rw [hpeek]
  split
  · exact cutShort_transplanted (s := s.beginToken) _
  · simp only [Step.map_ite]
    rfl

theorem elementStartStep_transplanted :
    elementStartStep i (s.transplanted text k) =
      (elementStartStep i s).map (transplanted text k) := by
  have hpeek : (s.transplanted text k).beginToken.peek? = s.beginToken.peek? := h
  unfold elementStartStep
  dsimp only
  rw [hpeek]
  split
  · rfl
  · simp only [Step.map_ite]
    rfl

theorem bareElementStep_transplanted :
    bareElementStep mode i (s.transplanted text k) =
      (bareElementStep mode i s).map (transplanted text k) := by
  have hpeek : (s.transplanted text k).peek? = s.peek? := h
  unfold bareElementStep
  rw [hpeek]
  split
  · exact cutShort_transplanted _
  · simp only [Step.map_ite]
    rfl

theorem elementSeparatorStep_transplanted :
    elementSeparatorStep mode i (s.transplanted text k) =
      (elementSeparatorStep mode i s).map (transplanted text k) := by
  have hpeek : (s.transplanted text k).peek? = s.peek? := h
  unfold elementSeparatorStep
  rw [hpeek]
  split
  · exact cutShort_transplanted (s := s.beginToken) _
  · simp only [Step.map_ite]
    rfl

theorem listEndStep_transplanted :
    listEndStep (s.transplanted text k) = (listEndStep s).map (transplanted text k) := by
  have hpeek : (s.transplanted text k).beginToken.peek? = s.beginToken.peek? := h
  unfold listEndStep
  dsimp only
  rw [hpeek]
  split
  · rfl
  · rw [Step.map_ite]
    rfl

/-- Between double quotes a backslash is seen together with the character behind it. -/
theorem quotedStep_transplanted {q : Quote} {closed : ScanState} (hclosed : closed.moved k = closed)
    (hescape : q = .double → s.peek? = some '\\' → text[k + s.cursor + 1]? = s.advance.peek?) :
    quotedStep mode q closed (s.transplanted text k) =
      (quotedStep mode q closed s).map (transplanted text k) := by
  have hpeek : (s.transplanted text k).peek? = s.peek? := h
  have hgoto : (s.transplanted text k).advance.goto closed =
      (s.advance.goto closed).transplanted text k := by
    conv_lhs => rw [← hclosed]
    rfl
  unfold quotedStep
  rw [hpeek]
  split
  · exact cutShort_transplanted _
  · rename_i c hc
    by_cases hclose : c = q.char
    · have hinside : (s.transplanted text k).cursor = (s.transplanted text k).tokenStart + 1 ↔
          s.cursor = s.tokenStart + 1 := by
        show k + s.cursor = k + s.tokenStart + 1 ↔ _
        omega
      rw [if_pos hclose, if_pos hclose, Step.map_ite, if_congr hinside rfl rfl, hgoto]
      rfl
    · rw [if_neg hclose, if_neg hclose]
      by_cases hslash : c = '\\' ∧ q = .double
      · have hnext : (s.transplanted text k).advance.peek? = s.advance.peek? :=
          hescape hslash.2 (hslash.1 ▸ hc)
        rw [if_pos hslash, if_pos hslash, hnext]
        split
        · exact cutShort_transplanted (s := s.advance) _
        · rfl
      · rw [if_neg hslash, if_neg hslash]
        rfl

end

theorem valueStep_transplanted {stage : ValueStage} (h : SeenIn text k s)
    (hstate : s.state = .value i stage) :
    valueStep mode field i stage (s.transplanted text k) =
      (valueStep mode field i stage s).map (transplanted text k) := by
  cases stage with
  | separator equalsSeen => exact valueSeparatorStep_transplanted h.peek
  | start => exact valueStartStep_transplanted h.peek
  | bare => exact bareValueStep_transplanted h.peek
  | quoted q =>
    refine quotedStep_transplanted h.peek rfl fun hq hslash => h.escape ?_ hslash
    rw [hstate, hq]
    rfl
  | endBare => exact valueEndStep_transplanted h.peek
  | endQuoted q => exact valueEndStep_transplanted h.peek

theorem listStep_transplanted {stage : ListStage} (h : SeenIn text k s)
    (hstate : s.state = .list i stage) :
    listStep mode field i stage (s.transplanted text k) =
      (listStep mode field i stage s).map (transplanted text k) := by
  cases stage with
  | start => exact elementStep_transplanted h.peek
  | next => exact elementStep_transplanted h.peek
  | elementStart => exact elementStartStep_transplanted h.peek
  | bare => exact bareElementStep_transplanted h.peek
  | quoted q =>
    refine quotedStep_transplanted h.peek rfl fun hq hslash => h.escape ?_ hslash
    rw [hstate, hq]
    rfl
  | elementEnd => rfl
  | separator => exact elementSeparatorStep_transplanted h.peek

/-- The step of a transplanted scan is the transplanted step. -/
theorem parameterStep_transplanted (h : SeenIn text k s) :
    parameterStep form mode (s.transplanted text k) =
      (parameterStep form mode s).map (transplanted text k) := by
  have hmoved : (s.transplanted text k).state = s.state.moved k := rfl
  unfold parameterStep
  rw [hmoved]
  cases hstate : s.state with
  | startParameter => exact parameterStartStep_transplanted h.peek
  | parameterSeparator => exact parameterSeparatorStep_transplanted h.peek
  | flagDash => exact flagDashStep_transplanted h.peek
  | flagName => exact flagNameStep_transplanted h.peek
  | value i stage =>
    dsimp only [ScanState.moved]
    split
    · exact valueStep_transplanted h hstate
    · rfl
  | list i stage =>
    dsimp only [ScanState.moved]
    split
    · exact listStep_transplanted h hstate
    · rfl
  | listEnd i => exact listEndStep_transplanted h.peek
  | rest i =>
    dsimp only [ScanState.moved]
    split
    · obtain ⟨hrest, hlength⟩ := h.rest i hstate
      unfold restStep
      dsimp only [transplanted, ahead] at hrest ⊢
      rw [hrest, hlength]
      rfl
    · rfl
  | _ => rfl

/-- The transplanted scan makes the given step, transplanted. -/
theorem parameterStep_transplanted_of_eq {step : Step} (h : SeenIn text k s)
    (hstep : parameterStep form mode s = step) :
    parameterStep form mode (s.transplanted text k) = step.map (transplanted text k) := by
  rw [← hstep]
  exact parameterStep_transplanted h

/-- A step that takes the rest of the line is the last one. -/
theorem exists_stop_of_rest (hstate : s.state = .rest i) :
    ∃ t, parameterStep form mode s = .stop t := by
  rw [parameterStep, hstate]
  dsimp only
  split
  · exact ⟨_, rfl⟩
  · exact ⟨_, rfl⟩

theorem state_ne_rest_of_next {t : Scan} (hstep : parameterStep form mode s = .next t) :
    s.state ≠ .rest i := by
  intro hstate
  obtain ⟨u, hstop⟩ := exists_stop_of_rest hstate
  cases hstep.symm.trans hstop

/-- So it is while the command tree is descended, too. -/
theorem descentStep_transplanted (h : text[k + s.cursor]? = s.peek?) :
    descentStep mode (s.transplanted text k) = (descentStep mode s).map (transplanted text k) := by
  have hpeek : (s.transplanted text k).peek? = s.peek? := h
  have hmoved : (s.transplanted text k).state = s.state.moved k := rfl
  have hlabel : Binding.find? (s.transplanted text k).candidates (s.transplanted text k).token =
      Binding.find? s.candidates s.token := rfl
  unfold descentStep
  rw [hmoved, hpeek, hlabel]
  cases hstate : s.state with
  | start =>
    dsimp only [ScanState.moved]
    rw [Step.map_ite]
    rfl
  | command =>
    dsimp only [ScanState.moved]
    split
    · rw [Step.map_ite]
      rfl
    · rw [Step.map_ite]
      rfl
  | endCommand =>
    dsimp only [ScanState.moved]
    split
    · rfl
    · rfl
  | commandSeparator =>
    dsimp only [ScanState.moved]
    split
    · rfl
    · rw [Step.map_ite]
      rfl
  | _ => rfl

/-! ## Runs -/

variable {t : Scan}

/-- A run of the one text leads to the same place in the other, if it sees the same on its way. -/
theorem Reaches.transplanted (h : Reaches (parameterStep form mode) s t)
    (hseen : ∀ u v, Reaches (parameterStep form mode) s u → parameterStep form mode u = .next v →
      Reaches (parameterStep form mode) v t → SeenIn text k u) :
    Reaches (parameterStep form mode) (s.transplanted text k) (t.transplanted text k) := by
  induction h with
  | refl => exact .refl
  | @next u v hreach hstep ih =>
    refine .next (ih fun x y hx hxy hy => hseen x y hx hxy (.next hy hstep)) ?_
    exact parameterStep_transplanted_of_eq (hseen u v hreach hstep .refl) hstep

/-- If all that a run sees stands in the other text, the run of the transplanted scan is the
transplanted run. -/
theorem readForm_transplanted (inv : Scan → Prop)
    (next : ∀ u v, inv u → parameterStep form mode u = .next v → inv v)
    (seen : ∀ u, inv u → SeenIn text k u) (hs : inv s) :
    readForm form mode (s.transplanted text k) = (readForm form mode s).transplanted text k := by
  induction s using run_induction (@parameterMeasure_lt form mode) with
  | next u v hstep ih =>
    have hmove := parameterStep_transplanted_of_eq (seen u hs) hstep
    rw [readForm_of_next hstep, readForm_of_next hmove]
    exact ih (next u v hs hstep)
  | stop u v hstep =>
    have hmove := parameterStep_transplanted_of_eq (seen u hs) hstep
    rw [readForm_of_stop hstep, readForm_of_stop hmove]
  | fail u v e hstep =>
    have hmove := parameterStep_transplanted_of_eq (seen u hs) hstep
    rw [readForm_of_fail hstep, readForm_of_fail hmove]
    rfl

/-- The error of a transplanted scan is found further on. -/
theorem error?_transplanted (s : Scan) (text : List Char) (k : Nat) :
    (s.transplanted text k).error? =
      s.error?.map fun e => { e with position := k + e.position } := by
  unfold error? transplanted
  cases s.state with
  | _ => rfl

/-! ## Where two texts agree -/

variable {pre before before' rest : List Char}

theorem getElem?_of_isPrefix {text' : List Char} {j : Nat} (h : pre <+: text) (h' : pre <+: text')
    (hj : j < pre.length) : text'[0 + j]? = text[j]? := by
  obtain ⟨r, rfl⟩ := h
  obtain ⟨r', rfl⟩ := h'
  rw [Nat.zero_add, List.getElem?_append_left hj, List.getElem?_append_left hj]

/-- Two texts that begin in the same way look the same before the end of that beginning.  A
backslash is seen together with the character behind it, so the beginning must not end with one. -/
theorem SeenIn.of_isPrefix (hs : pre <+: s.text) (htext : pre <+: text)
    (hcursor : s.cursor < pre.length) (hlast : pre.getLast? ≠ some '\\')
    (hrest : ∀ i, s.state ≠ .rest i) : SeenIn text 0 s := by
  refine ⟨getElem?_of_isPrefix hs htext hcursor, fun _ hslash => ?_,
    fun i hi => absurd hi (hrest i)⟩
  have hmore : s.cursor + 1 < pre.length := by
    refine Nat.lt_of_le_of_ne hcursor fun hend => hlast ?_
    have hpre : pre[s.cursor]? = some '\\' := by
      obtain ⟨r, hr⟩ := hs
      rw [← hslash, peek?, ← hr, List.getElem?_append_left hcursor]
    rw [List.getLast?_eq_getElem?, ← hend]
    exact hpre
  exact getElem?_of_isPrefix hs htext hmore

/-- Two texts that end in the same way look the same from the beginning of that end on. -/
theorem SeenIn.of_isSuffix (hs : s.text = before ++ rest) (htext : text = before' ++ rest)
    (hlength : before'.length = k + before.length) (hcursor : before.length ≤ s.cursor) :
    SeenIn text k s := by
  have hsame {j : Nat} (hj : before.length ≤ j) : text[k + j]? = s.text[j]? := by
    rw [hs, htext, List.getElem?_append_right hj, List.getElem?_append_right (by omega), hlength]
    congr 1
    omega
  refine ⟨hsame hcursor, fun _ _ => hsame (Nat.le_succ_of_le hcursor), fun _ _ => ⟨?_, ?_⟩⟩
  · obtain ⟨j, hj⟩ := Nat.exists_eq_add_of_le hcursor
    rw [ahead, hs, htext, hj, ← Nat.add_assoc, ← hlength, List.drop_length_add_append,
      List.drop_length_add_append]
  · rw [hs, htext, List.length_append, List.length_append, hlength, Nat.add_assoc]

end Scan

end SlashCommand
