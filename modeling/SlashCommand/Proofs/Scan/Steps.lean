import SlashCommand.Proofs.Scan.Grammar
import SlashCommand.Proofs.Scan.Run

/-!
# The steps of the second phase

What a step does depends on the state and on the text ahead.  This module says it state by state,
with the characters that are ahead in the place of the cursor; later proofs compose these lemmas and
never open a step again.  Each lemma is named for the state, and then for what is ahead.
-/

namespace SlashCommand

namespace Scan

variable {form : Form} {mode : ScanMode} {s : Scan} {c : Char} {r : List Char}

/-! ## Between parameters -/

theorem step_startParameter_nil (hstate : s.state = .startParameter) (h : s.ahead = []) :
    parameterStep form mode s = .stop s.beginToken := by
  rw [parameterStep, hstate]
  simp only [parameterStartStep, peek?_of_ahead_nil h]

theorem step_startParameter_dash (hstate : s.state = .startParameter) (h : s.ahead = '-' :: r) :
    parameterStep form mode s = .next (s.advance.goto .flagDash) := by
  rw [parameterStep, hstate]
  simp only [parameterStartStep, peek?_of_ahead h]

/-- The scan at a parameter without a dash, which is counted. -/
def countPositional (s : Scan) : Scan := { s with positionals := s.positionals + 1 }

/-- A parameter without a dash is given to the field at its position, or else to the field that
takes the rest of the line. -/
theorem step_startParameter_cons (hstate : s.state = .startParameter) (h : s.ahead = c :: r)
    (hc : c ≠ '-') :
    parameterStep form mode s =
      match form.fields.findIdx? (·.position == ((s.positionals + 1 : Nat) : Int)) with
      | some i => .next (s.countPositional.goto (.value i .start))
      | none =>
        match form.fields.findIdx? fun f => f.isRest && !s.values.contains f.name with
        | some i => .next (s.countPositional.beginToken.goto (.rest i))
        | none => .fail s.countPositional (.noArgumentPosition (s.positionals + 1)) := by
  rw [parameterStep, hstate]
  simp only [parameterStartStep, peek?_of_ahead h]
  rfl

theorem step_parameterSeparator_nil (hstate : s.state = .parameterSeparator) (h : s.ahead = []) :
    parameterStep form mode s = .stop (s.markToken.goto .startParameter) := by
  have hpeek : s.markToken.peek? = none := peek?_of_ahead_nil h
  rw [parameterStep, hstate]
  simp only [parameterSeparatorStep, hpeek]

theorem step_parameterSeparator_blank (hstate : s.state = .parameterSeparator)
    (h : s.ahead = c :: r) (hc : Text.isBlank c = true) :
    parameterStep form mode s = .next s.markToken.advance := by
  have hpeek : s.markToken.peek? = some c := peek?_of_ahead h
  rw [parameterStep, hstate]
  simp only [parameterSeparatorStep, hpeek, if_pos hc]

theorem step_parameterSeparator_cons (hstate : s.state = .parameterSeparator)
    (h : s.ahead = c :: r) (hc : Text.isBlank c = false) :
    parameterStep form mode s = .next (s.markToken.goto .startParameter) := by
  have hpeek : s.markToken.peek? = some c := peek?_of_ahead h
  rw [parameterStep, hstate]
  simp [parameterSeparatorStep, hpeek, hc]

/-! ## Flags -/

theorem step_flagDash_dash (hstate : s.state = .flagDash) (h : s.ahead = '-' :: r) :
    parameterStep form mode s = .next (s.advance.beginToken.goto .flagName) := by
  rw [parameterStep, hstate]
  simp only [flagDashStep, peek?_of_ahead h, if_pos]

theorem step_flagDash_other (hstate : s.state = .flagDash) (h : s.ahead.head? ≠ some '-') :
    parameterStep form mode s = .next (s.beginToken.goto .flagName) := by
  rw [← peek?_eq_head?] at h
  rw [parameterStep, hstate]
  simp only [flagDashStep, if_neg h]

theorem step_flagName_cons (hstate : s.state = .flagName) (h : s.ahead = c :: r)
    (hc : IsNameChar c) :
    parameterStep form mode s = .next (s.push c) := by
  rw [parameterStep, hstate]
  simp only [flagNameStep, peek?_of_ahead h, if_neg hc]

/-- A name that is complete is looked up. -/
theorem step_flagName_end (hstate : s.state = .flagName)
    (h : s.ahead = [] ∧ mode = .execute ∨
      ∃ c r, s.ahead = c :: r ∧ ¬ IsNameChar c) :
    parameterStep form mode s = flagEndStep form s := by
  rw [parameterStep, hstate]
  rcases h with ⟨h, rfl⟩ | ⟨c, r, h, hc⟩
  · simp only [flagNameStep, peek?_of_ahead_nil h]
    rfl
  · simp only [flagNameStep, peek?_of_ahead h, if_pos (Decidable.of_not_not hc)]

/-! ## Values -/

variable {field : Field} {i : Nat}

/-- The step inside a value belongs to the field of the state. -/
theorem parameterStep_value {stage : ValueStage} (hfield : form.fields[i]? = some field)
    (hstate : s.state = .value i stage) :
    parameterStep form mode s = valueStep mode field i stage s := by
  rw [parameterStep, hstate]
  simp only [hfield]

/-- The step inside a list belongs to the field of the state. -/
theorem parameterStep_list {stage : ListStage} (hfield : form.fields[i]? = some field)
    (hstate : s.state = .list i stage) :
    parameterStep form mode s = listStep mode field i stage s := by
  rw [parameterStep, hstate]
  simp only [hfield]

theorem step_separator_nil {equalsSeen : Bool} (hfield : form.fields[i]? = some field)
    (hstate : s.state = .value i (.separator equalsSeen)) (h : s.ahead = []) :
    parameterStep form .execute s = .next (s.markToken.goto (.value i .start)) := by
  have hpeek : s.markToken.peek? = none := peek?_of_ahead_nil h
  rw [parameterStep_value hfield hstate]
  simp only [valueStep, valueSeparatorStep, hpeek]
  rfl

theorem step_separator_equals {equalsSeen : Bool} (hfield : form.fields[i]? = some field)
    (hstate : s.state = .value i (.separator equalsSeen)) (h : s.ahead = '=' :: r) :
    parameterStep form mode s =
      if equalsSeen then .fail s.markToken .multipleEquals
      else .next (s.markToken.advance.goto (.value i (.separator true))) := by
  have hpeek : s.markToken.peek? = some '=' := peek?_of_ahead h
  rw [parameterStep_value hfield hstate]
  simp only [valueStep, valueSeparatorStep, hpeek, if_pos]

theorem step_separator_blank {equalsSeen : Bool} (hfield : form.fields[i]? = some field)
    (hstate : s.state = .value i (.separator equalsSeen)) (h : s.ahead = c :: r)
    (hc : Text.isBlank c = true) :
    parameterStep form mode s = .next s.markToken.advance := by
  have hpeek : s.markToken.peek? = some c := peek?_of_ahead h
  have hne : c ≠ '=' := by
    rintro rfl
    cases hc
  rw [parameterStep_value hfield hstate]
  simp only [valueStep, valueSeparatorStep, hpeek, if_neg hne, if_pos hc]

theorem step_separator_cons {equalsSeen : Bool} (hfield : form.fields[i]? = some field)
    (hstate : s.state = .value i (.separator equalsSeen)) (h : s.ahead = c :: r) (hne : c ≠ '=')
    (hc : Text.isBlank c = false) :
    parameterStep form mode s = .next (s.markToken.goto (.value i .start)) := by
  have hpeek : s.markToken.peek? = some c := peek?_of_ahead h
  rw [parameterStep_value hfield hstate]
  simp [valueStep, valueSeparatorStep, hpeek, hne, hc]

theorem step_start_nil (hfield : form.fields[i]? = some field)
    (hstate : s.state = .value i .start) (h : s.ahead = []) :
    parameterStep form mode s = .next (s.beginToken.goto (.value i .bare)) := by
  have hpeek : s.beginToken.peek? = none := peek?_of_ahead_nil h
  rw [parameterStep_value hfield hstate]
  simp only [valueStep, valueStartStep, hpeek]

theorem step_start_quote {q : Quote} (hfield : form.fields[i]? = some field)
    (hstate : s.state = .value i .start) (h : s.ahead = q.char :: r) :
    parameterStep form mode s = .next (s.beginToken.advance.goto (.value i (.quoted q))) := by
  have hpeek : s.beginToken.peek? = some q.char := peek?_of_ahead h
  rw [parameterStep_value hfield hstate]
  simp only [valueStep, valueStartStep, hpeek]
  cases q with
  | double => rfl
  | tick => rfl

theorem step_start_bracket (hfield : form.fields[i]? = some field)
    (hstate : s.state = .value i .start) (h : s.ahead = '[' :: r)
    (hmulti : field.multiselect = true) :
    parameterStep form mode s =
      .next ((s.beginToken.assign field.name (.list [])).advance.goto (.list i .start)) := by
  have hpeek : s.beginToken.peek? = some '[' := peek?_of_ahead h
  rw [parameterStep_value hfield hstate]
  simp [valueStep, valueStartStep, hpeek, hmulti]

theorem step_start_bare (hfield : form.fields[i]? = some field)
    (hstate : s.state = .value i .start) (h : s.ahead = c :: r) (hc : BeginsBare field c) :
    parameterStep form mode s = .next (s.beginToken.goto (.value i .bare)) := by
  obtain ⟨hquote, hbracket, hblank⟩ := hc
  have hdouble : c ≠ '"' := hquote .double
  have htick : c ≠ '\x60' := hquote .tick
  have hpeek : s.beginToken.peek? = some c := peek?_of_ahead h
  rw [parameterStep_value hfield hstate]
  simp only [valueStep, valueStartStep, hpeek]
  rw [if_neg hdouble, if_neg htick, if_neg hbracket,
    if_neg (by rw [hblank]; exact Bool.false_ne_true)]

theorem step_start_blank (hfield : form.fields[i]? = some field)
    (hstate : s.state = .value i .start) (h : s.ahead = c :: r) (hc : Text.isBlank c = true) :
    parameterStep form mode s = .fail s.beginToken (.unexpectedCharacter c) := by
  have hpeek : s.beginToken.peek? = some c := peek?_of_ahead h
  have hne : c ≠ '"' ∧ c ≠ '\x60' ∧ c ≠ '[' := by
    refine ⟨?_, ?_, ?_⟩
    all_goals
      rintro rfl
      cases hc
  rw [parameterStep_value hfield hstate]
  simp [valueStep, valueStartStep, hpeek, hne, hc]

theorem step_bare_cons (hfield : form.fields[i]? = some field)
    (hstate : s.state = .value i .bare) (h : s.ahead = c :: r) (hc : Text.isBlank c = false) :
    parameterStep form mode s = .next (s.push c) := by
  rw [parameterStep_value hfield hstate]
  simp [valueStep, bareValueStep, peek?_of_ahead h, hc]

theorem step_bare_end (hfield : form.fields[i]? = some field)
    (hstate : s.state = .value i .bare) (h : StartsBlank s.ahead) :
    parameterStep form mode s = .next (s.goto (.value i .endBare)) := by
  rw [StartsBlank, ← peek?_eq_head?] at h
  rw [parameterStep_value hfield hstate]
  simp only [valueStep, bareValueStep]
  cases hc : s.peek? with
  | none => rfl
  | some c => exact if_pos (h c hc)

/-- A bare token is read up to its end. -/
theorem readForm_bare {w : List Char} (hfield : form.fields[i]? = some field) (hw : IsWord w)
    (hr : StartsBlank r) (hstate : s.state = .value i .bare) (h : s.ahead = w ++ r) :
    readForm form mode s = readForm form mode ((s.pushAll w).goto (.value i .endBare)) := by
  have hread : readForm form mode s = readForm form mode (s.pushAll w) :=
    run_pushAll (fun t c r' hstate hahead hc => step_bare_cons hfield hstate hahead hc) hstate h hw
  have hstate' : (s.pushAll w).state = .value i .bare := hstate
  have hbehind : StartsBlank (s.pushAll w).ahead := (ahead_pushAll h).symm ▸ hr
  rw [hread, readForm_of_next (step_bare_end hfield hstate' hbehind)]

/-- So is one that is yet to begin. -/
theorem readForm_start_bare {w : List Char} (hfield : form.fields[i]? = some field) (hw : IsWord w)
    (hr : StartsBlank r) (hbegin : ∀ c ∈ (w ++ r).head?, BeginsBare field c)
    (hstate : s.state = .value i .start) (h : s.ahead = w ++ r) :
    readForm form mode s =
      readForm form mode ((s.beginToken.pushAll w).goto (.value i .endBare)) := by
  have hstart : readForm form mode s =
      readForm form mode (s.beginToken.goto (.value i .bare)) := by
    cases hahead : s.ahead with
    | nil => exact readForm_of_next (step_start_nil hfield hstate hahead)
    | cons c r' =>
      rw [← h, hahead] at hbegin
      exact readForm_of_next (step_start_bare hfield hstate hahead (hbegin c rfl))
  have hbare : (s.beginToken.goto (.value i .bare)).ahead = w ++ r := h
  rw [hstart, readForm_bare hfield hw hr rfl hbare]
  rfl

/-- The scan behind a value, which has been given to the field. -/
def closeValue (s : Scan) (field : Field) : Scan :=
  (s.assign field.name (.ofToken field.multiselect s.token)).clearToken.markToken

/-- A complete value is given to the field.  At the end of the text this ends the run. -/
theorem valueEndStep_execute_of_end {quoted : Bool}
    (h : StartsBlank s.ahead)
    (hbool : field.type = .bool → acceptsBool .execute s.token = true)
    (hne : quoted = true ∨ s.token ≠ "") :
    valueEndStep .execute field quoted s =
      if s.ahead = [] then .stop (s.closeValue field)
      else .next ((s.closeValue field).goto .parameterSeparator) := by
  have hfilter : (s.peek?.filter fun c => quoted && !Text.isBlank c) = none := by
    rw [Option.filter_eq_none_iff, peek?_eq_head?]
    intro c hc
    simp [h c hc]
  have hpeek : (s.closeValue field).peek? = none ↔ s.ahead = [] := by
    show s.peek? = none ↔ _
    rw [peek?_eq_head?, List.head?_eq_none_iff]
  have htoken : (!quoted && s.token == "") = false := by
    rcases hne with rfl | hne
    · rfl
    · simp [hne]
  have hnot : ¬ (field.type = .bool ∧ (!acceptsBool .execute s.token) = true) := by
    rintro ⟨htype, hrejected⟩
    rw [hbool htype] at hrejected
    cases hrejected
  simp only [valueEndStep, hfilter]
  rw [if_neg hnot, if_neg (fun h => by cases h.1), htoken, if_neg Bool.false_ne_true]
  by_cases hend : s.ahead = []
  · rw [if_pos hend]
    exact if_pos (hpeek.mpr hend)
  · rw [if_neg hend]
    exact if_neg (hend ∘ hpeek.mp)

/-- A quoted value is followed by a blank or nothing. -/
theorem valueEndStep_unexpected (h : s.ahead = c :: r) (hc : Text.isBlank c = false) :
    valueEndStep mode field true s = .fail s (.unexpectedCharacter c) := by
  have hfilter : (s.peek?.filter fun c => true && !Text.isBlank c) = some c := by
    rw [peek?_of_ahead h, Option.filter_some, hc]
    rfl
  simp only [valueEndStep, hfilter]

/-- An empty value that is not quoted is none. -/
theorem valueEndStep_execute_of_empty (hbool : field.type ≠ .bool) (htoken : s.token = "")
    (h : s.ahead = []) :
    valueEndStep .execute field false s = .fail s (.missingFieldValue field.name) := by
  have hfilter : (s.peek?.filter fun c => false && !Text.isBlank c) = none := by
    rw [peek?_of_ahead_nil h]
    rfl
  have hnot : ¬ (field.type = .bool ∧ (!acceptsBool .execute s.token) = true) :=
    fun hrejected => hbool hrejected.1
  simp only [valueEndStep, hfilter]
  rw [if_neg hnot, if_neg (fun h => by cases h.1), htoken]
  rfl

/-- An executed command that ends in front of a value fails for want of one. -/
theorem readForm_start_nil (hfield : form.fields[i]? = some field) (hbool : field.type ≠ .bool)
    (hstate : s.state = .value i .start) (h : s.ahead = []) :
    (readForm form .execute s).state = .failed ⟨.missingFieldValue field.name, s.cursor⟩ := by
  have hempty : s.ahead = [] ++ [] := h
  let read := (s.beginToken.pushAll []).goto (.value i .endBare)
  have hread : readForm form .execute s = readForm form .execute read :=
    readForm_start_bare hfield nofun startsBlank_nil nofun hstate hempty
  have hfail : parameterStep form .execute read =
      .fail read (.missingFieldValue field.name) := by
    rw [parameterStep_value hfield rfl]
    exact valueEndStep_execute_of_empty hbool rfl h
  rw [hread, readForm_of_fail hfail]
  rfl

/-- An executed command that ends behind the name of a flag fails for want of a value. -/
theorem readForm_separator_nil {equalsSeen : Bool} (hfield : form.fields[i]? = some field)
    (hbool : field.type ≠ .bool) (hstate : s.state = .value i (.separator equalsSeen))
    (h : s.ahead = []) :
    (readForm form .execute s).state = .failed ⟨.missingFieldValue field.name, s.cursor⟩ := by
  rw [readForm_of_next (step_separator_nil hfield hstate h)]
  exact readForm_start_nil hfield hbool rfl h

/-! ## Quotations -/

variable {q : Quote} {closed : ScanState}

theorem quotedStep_nil (h : s.ahead = []) :
    quotedStep mode q closed s = s.cutShort mode (.missingQuote q) := by
  simp only [quotedStep, peek?_of_ahead_nil h]

theorem quotedStep_close (h : s.ahead = q.char :: r) :
    quotedStep mode q closed s =
      if s.cursor = s.tokenStart + 1 then .fail s .emptyValue
      else .next (s.advance.goto closed) := by
  simp only [quotedStep, peek?_of_ahead h, if_pos]

theorem quotedStep_escape (hq : q = .double) (h : s.ahead = '\\' :: c :: r) :
    quotedStep mode q closed s = .next (s.advance.push c) := by
  subst hq
  have hne : '\\' ≠ Quote.double.char := by decide
  simp only [quotedStep, peek?_of_ahead h, if_neg hne, peek?_of_ahead (ahead_advance h)]
  rfl

theorem quotedStep_escape_nil (hq : q = .double) (h : s.ahead = ['\\']) :
    quotedStep mode q closed s = s.advance.cutShort mode (.missingQuote q) := by
  subst hq
  have hne : '\\' ≠ Quote.double.char := by decide
  simp only [quotedStep, peek?_of_ahead h, if_neg hne, peek?_of_ahead_nil (ahead_advance h)]
  rfl

theorem quotedStep_plain (h : s.ahead = c :: r) (hclose : c ≠ q.char)
    (hescape : ¬ (c = '\\' ∧ q = .double)) :
    quotedStep mode q closed s = .next (s.push c) := by
  simp only [quotedStep, peek?_of_ahead h, if_neg hclose, if_neg hescape]

/-! ## Lists -/

theorem elementStep_blank {afterComma : Bool} (h : s.ahead = c :: r)
    (hc : Text.isBlank c = true) : elementStep mode i afterComma s = .next s.advance := by
  simp only [elementStep, peek?_of_ahead h, if_pos hc]

theorem elementStep_nil {afterComma : Bool} (h : s.ahead = []) :
    elementStep mode i afterComma s = s.beginToken.cutShort mode .missingListEnd := by
  simp only [elementStep, peek?_of_ahead_nil h]

theorem elementStep_close (h : s.ahead = ']' :: r) :
    elementStep mode i false s = .next (s.advance.goto (.listEnd i)) := by
  simp only [elementStep, peek?_of_ahead h]
  rfl

theorem elementStep_cons {afterComma : Bool} (h : s.ahead = c :: r)
    (hblank : Text.isBlank c = false) (hclose : c ≠ ']') (hcomma : afterComma = true → c ≠ ',') :
    elementStep mode i afterComma s = .next (s.goto (.list i .elementStart)) := by
  have hnot : ¬ (afterComma = true ∧ (c = ']' ∨ c = ',')) := by
    rintro ⟨hafter, hc | hc⟩
    · exact hclose hc
    · exact hcomma hafter hc
  simp only [elementStep, peek?_of_ahead h]
  rw [if_neg (by rw [hblank]; exact Bool.false_ne_true), if_neg hnot, if_neg hclose]

theorem elementStep_afterComma (h : s.ahead = c :: r) (hc : c = ']' ∨ c = ',') :
    elementStep mode i true s = .fail s .emptyValue := by
  have hblank : Text.isBlank c = false := by
    rcases hc with rfl | rfl
    · rfl
    · rfl
  simp [elementStep, peek?_of_ahead h, hblank, hc]

theorem elementStartStep_quote (h : s.ahead = q.char :: r) :
    elementStartStep i s = .next (s.beginToken.advance.goto (.list i (.quoted q))) := by
  have hpeek : s.beginToken.peek? = some q.char := peek?_of_ahead h
  simp only [elementStartStep, hpeek]
  cases q with
  | double => rfl
  | tick => rfl

theorem elementStartStep_bare (h : s.ahead = c :: r) (hquote : ∀ q : Quote, c ≠ q.char)
    (hcomma : c ≠ ',') (hclose : c ≠ ']') :
    elementStartStep i s = .next (s.beginToken.goto (.list i .bare)) := by
  have hpeek : s.beginToken.peek? = some c := peek?_of_ahead h
  have hdouble : c ≠ '"' := hquote .double
  have htick : c ≠ '\x60' := hquote .tick
  have hnot : ¬ (c = ',' ∨ c = ']') := not_or.mpr ⟨hcomma, hclose⟩
  simp only [elementStartStep, hpeek]
  rw [if_neg hdouble, if_neg htick, if_neg hnot]

theorem elementStartStep_comma (h : s.ahead = ',' :: r) :
    elementStartStep i s = .fail s.beginToken .emptyValue := by
  have hpeek : s.beginToken.peek? = some ',' := peek?_of_ahead h
  simp only [elementStartStep, hpeek]
  rfl

theorem bareElementStep_nil (h : s.ahead = []) :
    bareElementStep mode i s = s.cutShort mode .missingListEnd := by
  simp only [bareElementStep, peek?_of_ahead_nil h]

theorem bareElementStep_cons (h : s.ahead = c :: r) (hc : IsElementChar c) :
    bareElementStep mode i s = .next (s.push c) := by
  obtain ⟨hblank, hcomma, hclose, hopen, hquote⟩ := hc
  have hdouble : c ≠ '"' := hquote .double
  have htick : c ≠ '\x60' := hquote .tick
  simp [bareElementStep, peek?_of_ahead h, hblank, hcomma, hclose, hopen, hdouble, htick]

theorem bareElementStep_end (h : s.ahead = c :: r)
    (hc : Text.isBlank c = true ∨ c = ',' ∨ c = ']') :
    bareElementStep mode i s = .next (s.goto (.list i .elementEnd)) := by
  simp only [bareElementStep, peek?_of_ahead h, if_pos hc]

theorem bareElementStep_open (h : s.ahead = c :: r) (hc : c = '[' ∨ ∃ q : Quote, c = q.char) :
    bareElementStep mode i s = .fail s (.unexpectedCharacter c) := by
  have hmember : c = '[' ∨ c = '"' ∨ c = '\x60' := by
    rcases hc with rfl | ⟨q, rfl⟩
    · exact .inl rfl
    · cases q with
      | double => exact .inr (.inl rfl)
      | tick => exact .inr (.inr rfl)
  have hnot : ¬ (Text.isBlank c = true ∨ c = ',' ∨ c = ']') := by
    rcases hmember with rfl | rfl | rfl
    all_goals decide
  simp only [bareElementStep, peek?_of_ahead h, if_neg hnot, if_pos hmember]

theorem elementSeparatorStep_nil (h : s.ahead = []) :
    elementSeparatorStep mode i s = s.beginToken.cutShort mode .missingListEnd := by
  simp only [elementSeparatorStep, peek?_of_ahead_nil h]

theorem elementSeparatorStep_blank (h : s.ahead = c :: r) (hc : Text.isBlank c = true) :
    elementSeparatorStep mode i s = .next s.advance := by
  simp only [elementSeparatorStep, peek?_of_ahead h, if_pos hc]

theorem elementSeparatorStep_comma (h : s.ahead = ',' :: r) :
    elementSeparatorStep mode i s = .next (s.advance.goto (.list i .next)) := by
  simp only [elementSeparatorStep, peek?_of_ahead h]
  rfl

theorem elementSeparatorStep_close (h : s.ahead = ']' :: r) :
    elementSeparatorStep mode i s = .next (s.advance.goto (.listEnd i)) := by
  simp only [elementSeparatorStep, peek?_of_ahead h]
  rfl

theorem elementSeparatorStep_cons (h : s.ahead = c :: r) (hblank : Text.isBlank c = false)
    (hcomma : c ≠ ',') (hclose : c ≠ ']') :
    elementSeparatorStep mode i s = .fail s (.unexpectedCharacter c) := by
  simp [elementSeparatorStep, peek?_of_ahead h, hblank, hcomma, hclose]

theorem step_listEnd_nil (hstate : s.state = .listEnd i) (h : s.ahead = []) :
    parameterStep form mode s = .stop s.beginToken := by
  have hpeek : s.beginToken.peek? = none := peek?_of_ahead_nil h
  rw [parameterStep, hstate]
  simp only [listEndStep, hpeek]

theorem step_listEnd_blank (hstate : s.state = .listEnd i) (h : s.ahead = c :: r)
    (hc : Text.isBlank c = true) :
    parameterStep form mode s = .next (s.beginToken.goto .parameterSeparator) := by
  have hpeek : s.beginToken.peek? = some c := peek?_of_ahead h
  rw [parameterStep, hstate]
  simp only [listEndStep, hpeek, if_pos hc]

theorem step_listEnd_cons (hstate : s.state = .listEnd i) (h : s.ahead = c :: r)
    (hc : Text.isBlank c = false) :
    parameterStep form mode s = .fail s.beginToken (.unexpectedCharacter c) := by
  have hpeek : s.beginToken.peek? = some c := peek?_of_ahead h
  rw [parameterStep, hstate]
  simp [listEndStep, hpeek, hc]

/-! ## The rest of the line -/

theorem step_rest (hfield : form.fields[i]? = some field) (hstate : s.state = .rest i) :
    parameterStep form mode s =
      .stop { s.assign field.name (.ofToken field.multiselect (String.ofList s.ahead)) with
        cursor := s.text.length, token := String.ofList s.ahead } := by
  rw [parameterStep, hstate]
  simp only [hfield, restStep]
  rfl

end Scan

end SlashCommand
