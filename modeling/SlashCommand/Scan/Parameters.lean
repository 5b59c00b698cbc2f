import SlashCommand.Scan.Basic
import SlashCommand.Text.Affix
import SlashCommand.Text.Lowercase

/-!
# Scanning parameters

The second phase of a scan.  It starts at the first token that the descent left over and reads the
rest of the text against a form.

* A parameter with a leading dash is a flag: one or two dashes, a name, blanks with at most one
  equals sign among them, and a value.
* Any other parameter is a value of the field at the next position.  Where no field has that
  position, the field that takes the rest of the line takes it, unless it already has a value.
* A value is bare, quoted, or, for a field that takes lists, a bracketed list of such elements
  between commas.
* The value of a boolean flag may be left out.  A token that is no truth value is then read once
  more, as the next parameter.

The last rule moves the cursor backwards, so what a step decreases is lexicographic: the number of
fields at positions not yet reached, the text that is left for further parameters, a rank of the
state, and the text that is left for the current token.
-/

namespace SlashCommand

namespace Scan

/-- A step at the end of the text before the current token is complete. -/
def cutShort (mode : ScanMode) (s : Scan) (e : GrammarError) : Step :=
  match mode with
  | .autocomplete => .stop s
  | .execute => .fail s e

/-- A token can be the value of a boolean field, or the start of one while it is typed. -/
def acceptsBool (mode : ScanMode) (token : String) : Bool :=
  match mode with
  | .execute => token == "true" || token == "false"
  | .autocomplete => Text.hasPrefix token "true" || Text.hasPrefix token "false"

/-- A step in front of a parameter. -/
def parameterStartStep (form : Form) (s : Scan) : Step :=
  match s.peek? with
  | none => .stop s.beginToken
  | some '-' => .next (s.advance.goto .flagDash)
  | some _ =>
    let s := { s with positionals := s.positionals + 1 }
    match form.fields.findIdx? (·.position == (s.positionals : Int)) with
    | some i => .next (s.goto (.value i .start))
    | none =>
      match form.fields.findIdx? fun f => f.isRest && !s.values.contains f.name with
      | some i => .next (s.beginToken.goto (.rest i))
      | none => .fail s (.noArgumentPosition s.positionals)

/-- A step behind a parameter. -/
def parameterSeparatorStep (s : Scan) : Step :=
  let s := s.markToken
  match s.peek? with
  | none => .stop (s.goto .startParameter)
  | some c => if Text.isBlank c then .next s.advance else .next (s.goto .startParameter)

/-- A step behind the first dash of a flag, where a second one may stand. -/
def flagDashStep (s : Scan) : Step :=
  let s := if s.peek? = some '-' then s.advance else s
  .next (s.beginToken.goto .flagName)

/-- The step that ends the name of a flag. -/
def flagEndStep (form : Form) (s : Scan) : Step :=
  match form.fields.findIdx? fun f => Text.eqIgnoreCase f.flagName s.token with
  | some i => .next (s.clearToken.goto (.value i (.separator false)))
  | none => .fail s (.unexpectedFlag s.token)

/-- A step in the name of a flag. -/
def flagNameStep (form : Form) (mode : ScanMode) (s : Scan) : Step :=
  match s.peek? with
  | none => if mode = .autocomplete then .stop s else flagEndStep form s
  | some c => if c = '=' ∨ Text.isBlank c then flagEndStep form s else .next (s.push c)

/-- A step between the name of a flag and its value. -/
def valueSeparatorStep (mode : ScanMode) (i : Nat) (equalsSeen : Bool) (s : Scan) : Step :=
  let s := s.markToken
  match s.peek? with
  | none => if mode = .autocomplete then .stop s else .next (s.goto (.value i .start))
  | some c =>
    if c = '=' then
      if equalsSeen then .fail s .multipleEquals
      else .next (s.advance.goto (.value i (.separator true)))
    else if Text.isBlank c then .next s.advance
    else .next (s.goto (.value i .start))

/-- The step that begins a value. -/
def valueStartStep (field : Field) (i : Nat) (s : Scan) : Step :=
  let s := s.beginToken
  match s.peek? with
  | none => .next (s.goto (.value i .bare))
  | some c =>
    if c = '"' then .next (s.advance.goto (.value i (.quoted .double)))
    else if c = '\x60' then .next (s.advance.goto (.value i (.quoted .tick)))
    else if c = '[' ∧ field.multiselect then
      .next ((s.assign field.name (.list [])).advance.goto (.list i .start))
    else if Text.isBlank c then .fail s (.unexpectedCharacter c)
    else .next (s.goto (.value i .bare))

/-- A step in a bare value. -/
def bareValueStep (i : Nat) (s : Scan) : Step :=
  match s.peek? with
  | none => .next (s.goto (.value i .endBare))
  | some c => if Text.isBlank c then .next (s.goto (.value i .endBare)) else .next (s.push c)

/-- A step between quotation marks; the closing mark leads to the state `closed`. -/
def quotedStep (mode : ScanMode) (quote : Quote) (closed : ScanState) (s : Scan) : Step :=
  match s.peek? with
  | none => s.cutShort mode (.missingQuote quote)
  | some c =>
    if c = quote.char then
      if s.cursor = s.tokenStart + 1 then .fail s .emptyValue else .next (s.advance.goto closed)
    else if c = '\\' ∧ quote = .double then
      match s.advance.peek? with
      | none => s.advance.cutShort mode (.missingQuote quote)
      | some literal => .next (s.advance.push literal)
    else .next (s.push c)

/-- The scan reads the current token once more, as a parameter, and the boolean field that it was no
value of is true. -/
def rescan (field : Field) (s : Scan) : Scan :=
  { s.assign field.name (.scalar "true") with
    state := .startParameter, cursor := s.tokenStart, token := "" }

/-- The step that ends a value outside brackets. -/
def valueEndStep (mode : ScanMode) (field : Field) (quoted : Bool) (s : Scan) : Step :=
  match s.peek?.filter fun c => quoted && !Text.isBlank c with
  | some c => .fail s (.unexpectedCharacter c)
  | none =>
    if field.type = .bool ∧ !acceptsBool mode s.token then .next (s.rescan field)
    else if mode = .autocomplete ∧ s.peek? = none then .stop s
    else if !quoted && s.token == "" then .fail s (.missingFieldValue field.name)
    else
      let s := (s.assign field.name (.ofToken field.multiselect s.token)).clearToken.markToken
      if s.peek? = none then .stop s else .next (s.goto .parameterSeparator)

/-- A step in a value outside brackets. -/
def valueStep (mode : ScanMode) (field : Field) (i : Nat) (stage : ValueStage) (s : Scan) : Step :=
  match stage with
  | .separator equalsSeen => valueSeparatorStep mode i equalsSeen s
  | .start => valueStartStep field i s
  | .bare => bareValueStep i s
  | .quoted q => quotedStep mode q (.value i (.endQuoted q)) s
  | .endBare => valueEndStep mode field false s
  | .endQuoted _ => valueEndStep mode field true s

/-- A step in front of a list element. -/
def elementStep (mode : ScanMode) (i : Nat) (afterComma : Bool) (s : Scan) : Step :=
  match s.peek? with
  | none => s.beginToken.cutShort mode .missingListEnd
  | some c =>
    if Text.isBlank c then .next s.advance
    else if afterComma ∧ (c = ']' ∨ c = ',') then .fail s .emptyValue
    else if c = ']' then .next (s.advance.goto (.listEnd i))
    else .next (s.goto (.list i .elementStart))

/-- The step that begins a list element. -/
def elementStartStep (i : Nat) (s : Scan) : Step :=
  let s := s.beginToken
  match s.peek? with
  | none => .next (s.goto (.list i .bare))
  | some c =>
    if c = '"' then .next (s.advance.goto (.list i (.quoted .double)))
    else if c = '\x60' then .next (s.advance.goto (.list i (.quoted .tick)))
    else if c = ',' ∨ c = ']' then .fail s .emptyValue
    else .next (s.goto (.list i .bare))

/-- A step in a bare list element. -/
def bareElementStep (mode : ScanMode) (i : Nat) (s : Scan) : Step :=
  match s.peek? with
  | none => s.cutShort mode .missingListEnd
  | some c =>
    if Text.isBlank c ∨ c = ',' ∨ c = ']' then .next (s.goto (.list i .elementEnd))
    else if c = '[' ∨ c = '"' ∨ c = '\x60' then .fail s (.unexpectedCharacter c)
    else .next (s.push c)

/-- Appends a token to the list that a field holds. -/
def appendTo (name : String) (token : String) (values : Values) : Values :=
  match values[name]? with
  | some (.list tokens) => values.insert name (.list (tokens ++ [token]))
  | _ => values

/-- The step that ends a list element. -/
def elementEndStep (field : Field) (i : Nat) (s : Scan) : Step :=
  .next { s with
    values := appendTo field.name s.token s.values, token := "", state := .list i .separator }

/-- A step behind a list element. -/
def elementSeparatorStep (mode : ScanMode) (i : Nat) (s : Scan) : Step :=
  match s.peek? with
  | none => s.beginToken.cutShort mode .missingListEnd
  | some c =>
    if Text.isBlank c then .next s.advance
    else if c = ',' then .next (s.advance.goto (.list i .next))
    else if c = ']' then .next (s.advance.goto (.listEnd i))
    else .fail s (.unexpectedCharacter c)

/-- A step in a bracketed list. -/
def listStep (mode : ScanMode) (field : Field) (i : Nat) (stage : ListStage) (s : Scan) : Step :=
  match stage with
  | .start => elementStep mode i false s
  | .next => elementStep mode i true s
  | .elementStart => elementStartStep i s
  | .bare => bareElementStep mode i s
  | .quoted q => quotedStep mode q (.list i .elementEnd) s
  | .elementEnd => elementEndStep field i s
  | .separator => elementSeparatorStep mode i s

/-- A step behind the bracket that closes a list. -/
def listEndStep (s : Scan) : Step :=
  let s := s.beginToken
  match s.peek? with
  | none => .stop s
  | some c =>
    if Text.isBlank c then .next (s.goto .parameterSeparator) else .fail s (.unexpectedCharacter c)

/-- The step that gives the rest of the line to a field. -/
def restStep (field : Field) (s : Scan) : Step :=
  let rest := String.ofList (s.text.drop s.cursor)
  .stop { s.assign field.name (.ofToken field.multiselect rest) with
    cursor := s.text.length, token := rest }

/-- One step of the second phase. -/
def parameterStep (form : Form) (mode : ScanMode) (s : Scan) : Step :=
  match s.state with
  | .startParameter => parameterStartStep form s
  | .parameterSeparator => parameterSeparatorStep s
  | .flagDash => flagDashStep s
  | .flagName => flagNameStep form mode s
  | .value i stage =>
    match form.fields[i]? with
    | some field => valueStep mode field i stage s
    | none => .stop s
  | .list i stage =>
    match form.fields[i]? with
    | some field => listStep mode field i stage s
    | none => .stop s
  | .listEnd _ => listEndStep s
  | .rest i =>
    match form.fields[i]? with
    | some field => restStep field s
    | none => .stop s
  | _ => .stop s

/-! ## Why the phase ends -/

/-- The number of fields at positions that no parameter has reached. -/
def openPositions (form : Form) (s : Scan) : Nat :=
  form.fields.countP fun f => (s.positionals : Int) < f.position

/-- The text that is left for parameters, counted from the last token that may be read again. -/
def parameterSpan (s : Scan) : Nat :=
  match s.state with
  | .startParameter | .parameterSeparator | .rest _ => s.remaining
  | .value _ .bare | .value _ (.quoted _) | .value _ .endBare | .value _ (.endQuoted _) =>
    max (s.text.length - s.tokenStart) s.remaining + 1
  | _ => s.remaining + 1

/-- The rank of a state among those with the same text left for parameters. -/
def parameterRank (s : Scan) : Nat :=
  match s.state with
  | .parameterSeparator => 15
  | .startParameter => 14
  | .flagDash => 13
  | .flagName => 12
  | .value _ (.separator _) => 11
  | .value _ .start => 10
  | .value _ .bare | .value _ (.quoted _) => 9
  | .value _ .endBare | .value _ (.endQuoted _) => 8
  | .list _ .start | .list _ .next => 7
  | .list _ .elementStart => 6
  | .list _ .bare | .list _ (.quoted _) => 5
  | .list _ .elementEnd => 4
  | .list _ .separator => 3
  | .listEnd _ => 2
  | _ => 0

/-- What each step of the second phase decreases. -/
def parameterMeasure (form : Form) (s : Scan) : Nat :=
  let n := s.text.length
  ((s.openPositions form * (n + 2) + s.parameterSpan) * 16 + s.parameterRank) * (n + 1) +
    s.remaining

/-- Two-digit numbers in base `k` are ordered by their first digit, and then by the second. -/
theorem pack_lt {a a' b b' k : Nat} (hb : b' < k) (h : a' < a ∨ a' ≤ a ∧ b' < b) :
    a' * k + b' < a * k + b := by
  rcases h with h | ⟨h, h'⟩
  · have := Nat.mul_le_mul_right k (Nat.succ_le_of_lt h)
    rw [Nat.succ_mul] at this
    omega
  · have := Nat.mul_le_mul_right k h
    omega

theorem remaining_le (s : Scan) : s.remaining ≤ s.text.length := Nat.sub_le ..

theorem parameterSpan_le (s : Scan) : s.parameterSpan ≤ s.text.length + 1 := by
  have := s.remaining_le
  unfold parameterSpan
  split <;> omega

theorem parameterRank_lt (s : Scan) : s.parameterRank < 16 := by
  unfold parameterRank
  split <;> omega

/-- The measure decreases lexicographically. -/
theorem parameterMeasure_lt_of {form : Form} {s s' : Scan} (text : s'.text = s.text)
    (h : s'.openPositions form < s.openPositions form ∨
      s'.openPositions form ≤ s.openPositions form ∧ (s'.parameterSpan < s.parameterSpan ∨
        s'.parameterSpan ≤ s.parameterSpan ∧ (s'.parameterRank < s.parameterRank ∨
          s'.parameterRank ≤ s.parameterRank ∧ s'.remaining < s.remaining))) :
    s'.parameterMeasure form < s.parameterMeasure form := by
  have span := s'.parameterSpan_le
  have rest := s'.remaining_le
  rw [text] at span rest
  simp only [parameterMeasure, text]
  refine pack_lt (by omega) ?_
  rcases h with h | ⟨h, h' | ⟨h', h'' | ⟨h'', h'''⟩⟩⟩
  · exact .inl (pack_lt s'.parameterRank_lt (.inl (pack_lt (by omega) (.inl h))))
  · exact .inl (pack_lt s'.parameterRank_lt (.inl (pack_lt (by omega) (.inr ⟨h, h'⟩))))
  · have := Nat.mul_le_mul_right (s.text.length + 2) h
    exact .inl (pack_lt s'.parameterRank_lt (.inr ⟨by omega, h''⟩))
  · have := Nat.mul_le_mul_right (s.text.length + 2) h
    exact .inr ⟨by omega, h'''⟩

/-- Steps that reach no further position decrease the rest of the measure. -/
theorem parameterMeasure_lt_of_span {form : Form} {s s' : Scan} (text : s'.text = s.text)
    (positionals : s'.positionals = s.positionals)
    (h : s'.parameterSpan < s.parameterSpan ∨
      s'.parameterSpan ≤ s.parameterSpan ∧ (s'.parameterRank < s.parameterRank ∨
        s'.parameterRank ≤ s.parameterRank ∧ s'.remaining < s.remaining)) :
    s'.parameterMeasure form < s.parameterMeasure form :=
  parameterMeasure_lt_of text (.inr ⟨by simp [openPositions, positionals], h⟩)

/-- A predicate that some member of a list loses counts fewer of them. -/
theorem countP_lt_countP {α : Type} {p q : α → Bool} {l : List α} (h : ∀ a ∈ l, q a → p a)
    {a : α} (ha : a ∈ l) (hp : p a) (hq : ¬ q a) : l.countP q < l.countP p := by
  induction l with
  | nil => cases ha
  | cons b l ih =>
    have tail : l.countP q ≤ l.countP p :=
      List.countP_mono_left fun x hx => h x (List.mem_cons_of_mem _ hx)
    rcases List.mem_cons.mp ha with rfl | ha
    · have hq : q a = false := by simpa using hq
      simp only [List.countP_cons, hp, hq, if_true, Bool.false_eq_true, if_false]
      omega
    · have := ih (fun x hx => h x (List.mem_cons_of_mem _ hx)) ha
      have head : (if q b then 1 else 0) ≤ (if p b then 1 else 0) := by
        cases hb : q b with
        | false => exact Nat.zero_le _
        | true => exact Nat.le_of_eq (by rw [h b List.mem_cons_self hb])
      simp only [List.countP_cons]
      omega

theorem parameterStartStep_lt {form : Form} {s s' : Scan} (state : s.state = .startParameter)
    (h : parameterStartStep form s = .next s') :
    s'.parameterMeasure form < s.parameterMeasure form := by
  have reached (f : Field) (hf : decide (((s.positionals + 1 : Nat) : Int) < f.position) = true) :
      decide ((s.positionals : Int) < f.position) = true := by
    simp only [decide_eq_true_eq] at hf ⊢
    omega
  unfold parameterStartStep at h
  split at h
  · cases h
  · rename_i hc
    have := cursor_lt_of_peek? hc
    cases h
    refine parameterMeasure_lt_of_span rfl rfl ?_
    simp only [parameterSpan, parameterRank, remaining, goto, advance, state]
    omega
  · dsimp only at h
    split at h
    · rename_i i hi
      cases h
      obtain ⟨hi, hf, -⟩ := List.findIdx?_eq_some_iff_getElem.mp hi
      have hf := beq_iff_eq.mp hf
      refine parameterMeasure_lt_of rfl (.inl ?_)
      refine countP_lt_countP (fun f _ => reached f) (List.getElem_mem hi)
        (decide_eq_true (by omega)) (fun beyond => ?_)
      have beyond := of_decide_eq_true beyond
      simp only [goto] at beyond
      omega
    · split at h
      · cases h
        refine parameterMeasure_lt_of rfl (.inr ⟨?_, .inr ?_⟩)
        · exact List.countP_mono_left fun f _ => reached f
        · simp only [parameterSpan, parameterRank, remaining, goto, beginToken, state]
          omega
      · cases h

theorem not_next_cutShort {mode : ScanMode} {s s' : Scan} {e : GrammarError} :
    cutShort mode s e ≠ .next s' := by
  unfold cutShort
  split <;> simp

theorem quotedStep_lt {form : Form} {mode : ScanMode} {quote : Quote} {closed : ScanState}
    {s s' : Scan} (span : (s.advance.goto closed).parameterSpan ≤ s.parameterSpan)
    (rank : (s.advance.goto closed).parameterRank < s.parameterRank)
    (pushed : ∀ t : Scan, t.text = s.text → t.tokenStart = s.tokenStart → t.state = s.state →
      s.cursor < t.cursor → t.parameterSpan ≤ s.parameterSpan)
    (h : quotedStep mode quote closed s = .next s') :
    s'.parameterMeasure form < s.parameterMeasure form := by
  unfold quotedStep at h
  split at h
  · exact absurd h not_next_cutShort
  · rename_i c hc
    have hc := cursor_lt_of_peek? hc
    have sameRank : ∀ t : Scan, t.state = s.state → t.parameterRank = s.parameterRank :=
      fun t ht => by simp only [parameterRank, ht]
    split at h
    · split at h
      · cases h
      · cases h
        exact parameterMeasure_lt_of_span rfl rfl (.inr ⟨span, .inl rank⟩)
    · split at h
      · split at h
        · exact absurd h not_next_cutShort
        · cases h
          refine parameterMeasure_lt_of_span rfl rfl (.inr ⟨?_, .inr ⟨?_, ?_⟩⟩)
          · exact pushed _ rfl rfl rfl (by simp only [push, advance]; omega)
          · exact Nat.le_of_eq (sameRank _ rfl)
          · simp only [remaining, push, advance]
            omega
      · cases h
        refine parameterMeasure_lt_of_span rfl rfl (.inr ⟨?_, .inr ⟨?_, ?_⟩⟩)
        · exact pushed _ rfl rfl rfl (by simp only [push]; omega)
        · exact Nat.le_of_eq (sameRank _ rfl)
        · simp only [remaining, push]
          omega

theorem valueSeparatorStep_lt {form : Form} {mode : ScanMode} {i : Nat} {equalsSeen : Bool}
    {s s' : Scan} (state : s.state = .value i (.separator equalsSeen))
    (h : valueSeparatorStep mode i equalsSeen s = .next s') :
    s'.parameterMeasure form < s.parameterMeasure form := by
  simp only [valueSeparatorStep] at h
  split at h
  · split at h
    · cases h
    · cases h
      refine parameterMeasure_lt_of_span rfl rfl ?_
      simp only [parameterSpan, parameterRank, remaining, goto, markToken, state]
      omega
  · rename_i c hc
    have := cursor_lt_of_peek? hc
    simp only [markToken] at this
    split at h
    · split at h
      · cases h
      · cases h
        refine parameterMeasure_lt_of_span rfl rfl ?_
        simp only [parameterSpan, parameterRank, remaining, goto, markToken, advance, state]
        omega
    · split at h
      · cases h
        refine parameterMeasure_lt_of_span rfl rfl ?_
        simp only [parameterSpan, parameterRank, remaining, markToken, advance, state]
        omega
      · cases h
        refine parameterMeasure_lt_of_span rfl rfl ?_
        simp only [parameterSpan, parameterRank, remaining, goto, markToken, state]
        omega

theorem valueStartStep_lt {form : Form} {field : Field} {i : Nat} {s s' : Scan}
    (state : s.state = .value i .start) (h : valueStartStep field i s = .next s') :
    s'.parameterMeasure form < s.parameterMeasure form := by
  simp only [valueStartStep] at h
  split at h
  · cases h
    refine parameterMeasure_lt_of_span rfl rfl ?_
    simp only [parameterSpan, parameterRank, remaining, goto, beginToken, state]
    omega
  · rename_i c hc
    have := cursor_lt_of_peek? hc
    simp only [beginToken] at this
    repeat' split at h
    all_goals
      cases h
      try
        refine parameterMeasure_lt_of_span rfl rfl ?_
        simp only [parameterSpan, parameterRank, remaining, goto, beginToken, advance, assign, state]
        omega

theorem bareValueStep_lt {form : Form} {i : Nat} {s s' : Scan} (state : s.state = .value i .bare)
    (h : bareValueStep i s = .next s') :
    s'.parameterMeasure form < s.parameterMeasure form := by
  simp only [bareValueStep] at h
  split at h
  · cases h
    refine parameterMeasure_lt_of_span rfl rfl ?_
    simp only [parameterSpan, parameterRank, remaining, goto, state]
    omega
  · rename_i c hc
    have := cursor_lt_of_peek? hc
    split at h <;> cases h
    · refine parameterMeasure_lt_of_span rfl rfl ?_
      simp only [parameterSpan, parameterRank, remaining, goto, state]
      omega
    · refine parameterMeasure_lt_of_span rfl rfl ?_
      simp only [parameterSpan, parameterRank, remaining, push, state]
      omega

/-- Behind a value there is less text left for parameters, also where the token is read again. -/
theorem valueEndStep_lt {form : Form} {mode : ScanMode} {field : Field} {quoted : Bool}
    {s s' : Scan}
    (span : s.parameterSpan = max (s.text.length - s.tokenStart) s.remaining + 1)
    (h : valueEndStep mode field quoted s = .next s') :
    s'.parameterMeasure form < s.parameterMeasure form := by
  simp only [valueEndStep] at h
  split at h
  · cases h
  · split at h
    · cases h
      refine parameterMeasure_lt_of_span rfl rfl (.inl ?_)
      rw [span]
      simp only [parameterSpan, remaining, rescan, assign]
      omega
    · split at h
      · cases h
      · split at h
        · cases h
        · split at h
          · cases h
          · cases h
            refine parameterMeasure_lt_of_span rfl rfl (.inl ?_)
            rw [span]
            simp only [parameterSpan, remaining, goto, markToken, clearToken, assign]
            omega

theorem valueStep_lt {form : Form} {mode : ScanMode} {field : Field} {i : Nat} {stage : ValueStage}
    {s s' : Scan} (state : s.state = .value i stage) (h : valueStep mode field i stage s = .next s') :
    s'.parameterMeasure form < s.parameterMeasure form := by
  cases stage with
  | separator equalsSeen => exact valueSeparatorStep_lt state h
  | start => exact valueStartStep_lt state h
  | bare => exact bareValueStep_lt state h
  | quoted q =>
    refine quotedStep_lt ?_ ?_ ?_ h
    · simp only [parameterSpan, remaining, goto, advance, state]
      omega
    · simp only [parameterRank, goto, state]
      omega
    · intro t text start same cursor
      simp only [parameterSpan, remaining, same, text, start, state]
      omega
  | endBare => exact valueEndStep_lt (by simp only [parameterSpan, state]) h
  | endQuoted q => exact valueEndStep_lt (by simp only [parameterSpan, state]) h

theorem elementStep_lt {form : Form} {mode : ScanMode} {i : Nat} {afterComma : Bool}
    {stage : ListStage} {s s' : Scan} (state : s.state = .list i stage)
    (before : stage = .start ∨ stage = .next) (h : elementStep mode i afterComma s = .next s') :
    s'.parameterMeasure form < s.parameterMeasure form := by
  have rank : s.parameterRank = 7 := by
    rcases before with rfl | rfl <;> simp only [parameterRank, state]
  unfold elementStep at h
  split at h
  · exact absurd h not_next_cutShort
  · rename_i c hc
    have := cursor_lt_of_peek? hc
    split at h
    · cases h
      refine parameterMeasure_lt_of_span rfl rfl (.inr ⟨?_, .inr ⟨Nat.le_refl _, ?_⟩⟩)
      · simp only [parameterSpan, remaining, advance, state]
        omega
      · simp only [remaining, advance]
        omega
    · split at h
      · cases h
      · split at h <;> cases h
        · refine parameterMeasure_lt_of_span rfl rfl (.inr ⟨?_, .inl (rank ▸ ?_)⟩)
          · simp only [parameterSpan, remaining, goto, advance, state]
            omega
          · simp only [parameterRank, goto]
            omega
        · refine parameterMeasure_lt_of_span rfl rfl (.inr ⟨?_, .inl (rank ▸ ?_)⟩)
          · simp only [parameterSpan, remaining, goto, state]
            omega
          · simp only [parameterRank, goto]
            omega

theorem elementStartStep_lt {form : Form} {i : Nat} {s s' : Scan}
    (state : s.state = .list i .elementStart) (h : elementStartStep i s = .next s') :
    s'.parameterMeasure form < s.parameterMeasure form := by
  simp only [elementStartStep] at h
  split at h
  · cases h
    refine parameterMeasure_lt_of_span rfl rfl ?_
    simp only [parameterSpan, parameterRank, remaining, goto, beginToken, state]
    omega
  · repeat' split at h
    all_goals
      cases h
      try
        refine parameterMeasure_lt_of_span rfl rfl ?_
        simp only [parameterSpan, parameterRank, remaining, goto, beginToken, advance, state]
        omega

theorem bareElementStep_lt {form : Form} {mode : ScanMode} {i : Nat} {s s' : Scan}
    (state : s.state = .list i .bare) (h : bareElementStep mode i s = .next s') :
    s'.parameterMeasure form < s.parameterMeasure form := by
  unfold bareElementStep at h
  split at h
  · exact absurd h not_next_cutShort
  · rename_i c hc
    have := cursor_lt_of_peek? hc
    split at h
    · cases h
      refine parameterMeasure_lt_of_span rfl rfl ?_
      simp only [parameterSpan, parameterRank, remaining, goto, state]
      omega
    · split at h <;> cases h
      refine parameterMeasure_lt_of_span rfl rfl ?_
      simp only [parameterSpan, parameterRank, remaining, push, state]
      omega

theorem elementEndStep_lt {form : Form} {field : Field} {i : Nat} {s s' : Scan}
    (state : s.state = .list i .elementEnd) (h : elementEndStep field i s = .next s') :
    s'.parameterMeasure form < s.parameterMeasure form := by
  cases h
  refine parameterMeasure_lt_of_span rfl rfl ?_
  simp only [parameterSpan, parameterRank, remaining, state]
  omega

theorem elementSeparatorStep_lt {form : Form} {mode : ScanMode} {i : Nat} {s s' : Scan}
    (state : s.state = .list i .separator) (h : elementSeparatorStep mode i s = .next s') :
    s'.parameterMeasure form < s.parameterMeasure form := by
  unfold elementSeparatorStep at h
  split at h
  · exact absurd h not_next_cutShort
  · rename_i c hc
    have := cursor_lt_of_peek? hc
    split at h
    · cases h
      refine parameterMeasure_lt_of_span rfl rfl ?_
      simp only [parameterSpan, parameterRank, remaining, advance, state]
      omega
    · split at h
      · cases h
        refine parameterMeasure_lt_of_span rfl rfl ?_
        simp only [parameterSpan, parameterRank, remaining, goto, advance, state]
        omega
      · split at h <;> cases h
        refine parameterMeasure_lt_of_span rfl rfl ?_
        simp only [parameterSpan, parameterRank, remaining, goto, advance, state]
        omega

theorem listStep_lt {form : Form} {mode : ScanMode} {field : Field} {i : Nat} {stage : ListStage}
    {s s' : Scan} (state : s.state = .list i stage) (h : listStep mode field i stage s = .next s') :
    s'.parameterMeasure form < s.parameterMeasure form := by
  cases stage with
  | start => exact elementStep_lt state (.inl rfl) h
  | next => exact elementStep_lt state (.inr rfl) h
  | elementStart => exact elementStartStep_lt state h
  | bare => exact bareElementStep_lt state h
  | quoted q =>
    refine quotedStep_lt ?_ ?_ ?_ h
    · simp only [parameterSpan, remaining, goto, advance, state]
      omega
    · simp only [parameterRank, goto, state]
      omega
    · intro t text start same cursor
      simp only [parameterSpan, remaining, same, text, state]
      omega
  | elementEnd => exact elementEndStep_lt state h
  | separator => exact elementSeparatorStep_lt state h

theorem parameterSeparatorStep_lt {form : Form} {s s' : Scan} (state : s.state = .parameterSeparator)
    (h : parameterSeparatorStep s = .next s') :
    s'.parameterMeasure form < s.parameterMeasure form := by
  simp only [parameterSeparatorStep] at h
  split at h
  · cases h
  · rename_i c hc
    have := cursor_lt_of_peek? hc
    simp only [markToken] at this
    split at h <;> cases h <;> refine parameterMeasure_lt_of_span rfl rfl ?_
    · simp only [parameterSpan, parameterRank, remaining, markToken, advance, state]
      omega
    · simp only [parameterSpan, parameterRank, remaining, markToken, goto, state]
      omega

theorem flagDashStep_lt {form : Form} {s s' : Scan} (state : s.state = .flagDash)
    (h : flagDashStep s = .next s') : s'.parameterMeasure form < s.parameterMeasure form := by
  simp only [flagDashStep] at h
  split at h
  all_goals
    cases h
    refine parameterMeasure_lt_of_span rfl rfl ?_
    simp only [parameterSpan, parameterRank, remaining, beginToken, advance, goto, state]
    omega

theorem flagEndStep_lt {form : Form} {s s' : Scan} (state : s.state = .flagName)
    (h : flagEndStep form s = .next s') : s'.parameterMeasure form < s.parameterMeasure form := by
  unfold flagEndStep at h
  split at h <;> cases h
  refine parameterMeasure_lt_of_span rfl rfl ?_
  simp only [parameterSpan, parameterRank, remaining, clearToken, goto, state]
  omega

theorem flagNameStep_lt {form : Form} {mode : ScanMode} {s s' : Scan} (state : s.state = .flagName)
    (h : flagNameStep form mode s = .next s') :
    s'.parameterMeasure form < s.parameterMeasure form := by
  unfold flagNameStep at h
  split at h
  · split at h
    · cases h
    · exact flagEndStep_lt state h
  · rename_i c hc
    have := cursor_lt_of_peek? hc
    split at h
    · exact flagEndStep_lt state h
    · cases h
      refine parameterMeasure_lt_of_span rfl rfl ?_
      simp only [parameterSpan, parameterRank, remaining, push, state]
      omega

theorem listEndStep_lt {form : Form} {i : Nat} {s s' : Scan} (state : s.state = .listEnd i)
    (h : listEndStep s = .next s') : s'.parameterMeasure form < s.parameterMeasure form := by
  simp only [listEndStep] at h
  split at h
  · cases h
  · split at h <;> cases h
    refine parameterMeasure_lt_of_span rfl rfl ?_
    simp only [parameterSpan, remaining, beginToken, goto, state]
    omega

/-- Each step of the second phase decreases the measure. -/
theorem parameterMeasure_lt {form : Form} {mode : ScanMode} {s s' : Scan}
    (h : parameterStep form mode s = .next s') :
    s'.parameterMeasure form < s.parameterMeasure form := by
  unfold parameterStep at h
  split at h
  · exact parameterStartStep_lt (by assumption) h
  · exact parameterSeparatorStep_lt (by assumption) h
  · exact flagDashStep_lt (by assumption) h
  · exact flagNameStep_lt (by assumption) h
  · split at h
    · exact valueStep_lt (by assumption) h
    · cases h
  · split at h
    · exact listStep_lt (by assumption) h
    · cases h
  · exact listEndStep_lt (by assumption) h
  · split at h <;> cases h
  · cases h

/-! ## The phase -/

/-- Reads the text from the first token that the descent left over into values, against the form of
the matched binding.  A scan that has failed or has no form is left as it is. -/
def parseForm (s : Scan) (mode : ScanMode) : Scan :=
  match s.form with
  | some form =>
    if s.isFailed then s
    else run (parameterStep form mode) (parameterMeasure form) parameterMeasure_lt
      { s with state := .startParameter, cursor := s.tokenStart, token := "" }
  | none => s

/-- The scan as a result: its error, if it has failed. -/
def result (s : Scan) : Except ParseError Scan :=
  match s.error? with
  | some e => .error e
  | none => .ok s

end Scan

end SlashCommand
