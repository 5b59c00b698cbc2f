import SlashCommand.Proofs.Scan.Descents
import SlashCommand.Proofs.Scan.Fails

/-!
# Bounds of a scan

While parameters are read, the current token begins at or before the cursor, the cursor stays in the
text, and a state inside a value names a field that the form has.  `Reading` says so of a scan, and
`reading_parameterStep` says that every step keeps it, whatever the form and the mode are.

The steps are made of a few motions of the cursor, so `Reading` is first followed through those.  The
one that needs the lower bound is the rescan of a token that turns out to be no truth value: it sets
the cursor back to the beginning of the token.
-/

namespace SlashCommand

namespace Scan

/-- A scan in the course of reading the parameters of a text. -/
structure Reading (form : Form) (text : List Char) (s : Scan) : Prop where
  text_eq : s.text = text
  isParameter : s.state.isParameter = true
  field_lt : ∀ i, s.state.field? = some i → i < form.fields.length
  tokenStart_le : s.tokenStart ≤ s.cursor
  cursor_le : s.cursor ≤ text.length

/-! ## The cursor -/

namespace Reading

variable {form : Form} {text r : List Char} {s : Scan} {c : Char} {i : Nat} {state : ScanState}

theorem goto (h : Reading form text s) (hstate : state.isParameter = true)
    (hfield : state.field? = none) : Reading form text (s.goto state) where
  text_eq := h.text_eq
  isParameter := hstate
  field_lt i hi := by
    have hnone : state.field? = some i := hi
    rw [hfield] at hnone
    cases hnone
  tokenStart_le := h.tokenStart_le
  cursor_le := h.cursor_le

theorem goto_field (h : Reading form text s) (hi : i < form.fields.length)
    (hstate : state.isParameter = true) (hfield : state.field? = some i) :
    Reading form text (s.goto state) where
  text_eq := h.text_eq
  isParameter := hstate
  field_lt j hj := by
    have hsome : state.field? = some j := hj
    rw [hfield] at hsome
    rwa [← Option.some.inj hsome]
  tokenStart_le := h.tokenStart_le
  cursor_le := h.cursor_le

theorem advance (h : Reading form text s) (hahead : s.ahead = c :: r) :
    Reading form text s.advance where
  text_eq := h.text_eq
  isParameter := h.isParameter
  field_lt := h.field_lt
  tokenStart_le := Nat.le_succ_of_le h.tokenStart_le
  cursor_le := h.text_eq ▸ cursor_lt_of_peek? (peek?_of_ahead hahead)

theorem push (h : Reading form text s) (hahead : s.ahead = c :: r) (d : Char) :
    Reading form text (s.push d) where
  text_eq := h.text_eq
  isParameter := h.isParameter
  field_lt := h.field_lt
  tokenStart_le := Nat.le_succ_of_le h.tokenStart_le
  cursor_le := h.text_eq ▸ cursor_lt_of_peek? (peek?_of_ahead hahead)

theorem beginToken (h : Reading form text s) : Reading form text s.beginToken where
  text_eq := h.text_eq
  isParameter := h.isParameter
  field_lt := h.field_lt
  tokenStart_le := Nat.le_refl s.cursor
  cursor_le := h.cursor_le

theorem markToken (h : Reading form text s) : Reading form text s.markToken where
  text_eq := h.text_eq
  isParameter := h.isParameter
  field_lt := h.field_lt
  tokenStart_le := Nat.le_refl s.cursor
  cursor_le := h.cursor_le

theorem clearToken (h : Reading form text s) : Reading form text s.clearToken :=
  ⟨h.text_eq, h.isParameter, h.field_lt, h.tokenStart_le, h.cursor_le⟩

theorem assign (h : Reading form text s) (name : String) (v : Value) :
    Reading form text (s.assign name v) :=
  ⟨h.text_eq, h.isParameter, h.field_lt, h.tokenStart_le, h.cursor_le⟩

/-- A token that is read once more lies between its beginning and the cursor. -/
theorem rescan (h : Reading form text s) (field : Field) :
    Reading form text (s.rescan field) where
  text_eq := h.text_eq
  isParameter := rfl
  field_lt i hi := by cases hi
  tokenStart_le := Nat.le_refl s.tokenStart
  cursor_le := Nat.le_trans h.tokenStart_le h.cursor_le

/-- A scan in its bounds has not failed. -/
theorem notFailed (h : Reading form text s) : s.isFailed = false := by
  have hparameter := h.isParameter
  unfold isFailed
  cases hstate : s.state with
  | failed e =>
    rw [hstate] at hparameter
    cases hparameter
  | _ => rfl

theorem inForm (h : Reading form text s) : InForm form s := ⟨h.isParameter, h.field_lt⟩

/-- A state inside a value names a field of the form. -/
theorem field (h : Reading form text s) (hi : s.state.field? = some i) :
    ∃ field ∈ form.fields, form.fields[i]? = some field := by
  have hlt := h.field_lt i hi
  exact ⟨form.fields[i], List.getElem_mem hlt, List.getElem?_eq_getElem hlt⟩

/-- Nothing is ahead only at the end of the text. -/
theorem cursor_eq (h : Reading form text s) (hahead : s.ahead = []) : s.cursor = text.length := by
  have hle := h.cursor_le
  rw [← h.text_eq] at hle ⊢
  exact cursor_eq_length hle hahead

/-- The first scan of the phase stands in front of a parameter, at the beginning of a token. -/
theorem rewind (hstart : s.tokenStart ≤ s.text.length) : Reading form s.text s.rewind where
  text_eq := rfl
  isParameter := rfl
  field_lt i hi := by cases hi
  tokenStart_le := Nat.le_refl s.tokenStart
  cursor_le := hstart

end Reading

/-- Reading begins at the token, in a state that names no field of another form. -/
theorem InBounds.rewind {form : Form} {text : List Char} {s : Scan} (h : InBounds text s) :
    Reading form text s.rewind :=
  h.text_eq ▸ Reading.rewind (h.text_eq ▸ h.tokenStart_le_length)

/-! ## Steps -/

variable {form : Form} {text : List Char} {mode : ScanMode} {field : Field} {s t : Scan} {i : Nat}
  {e : GrammarError}

/-- The index that `findIdx?` gives is one of the form's. -/
theorem lt_of_findIdx? {p : Field → Bool} (h : form.fields.findIdx? p = some i) :
    i < form.fields.length := by
  obtain ⟨hi, -⟩ := List.findIdx?_eq_some_iff_getElem.mp h
  exact hi

theorem Reading.countPositional (h : Reading form text s) : Reading form text s.countPositional :=
  ⟨h.text_eq, h.isParameter, h.field_lt, h.tokenStart_le, h.cursor_le⟩

theorem QuotedMoves.reading {q : Quote} {closed : ScanState} (hmove : QuotedMoves q closed s t)
    (h : Reading form text s) (hi : i < form.fields.length) (hclosed : closed.isParameter = true)
    (hfield : closed.field? = some i) : Reading form text t := by
  cases hmove with
  | close hahead => exact (h.advance hahead).goto_field hi hclosed hfield
  | escape _ hahead => exact (h.advance hahead).push (ahead_advance hahead) _
  | plain hahead => exact h.push hahead _

theorem ValueEndMoves.reading {quoted : Bool} (hmove : ValueEndMoves mode field quoted s t)
    (h : Reading form text s) : Reading form text t := by
  cases hmove with
  | rescan => exact h.rescan field
  | close => exact (h.assign field.name _).clearToken.markToken.goto rfl rfl

theorem ValueMoves.reading {stage : ValueStage} (hmove : ValueMoves mode field i s stage t)
    (h : Reading form text s) (hi : i < form.fields.length) : Reading form text t := by
  cases hmove with
  | separatorEnd | begin => exact h.markToken.goto_field hi rfl rfl
  | equals hahead => exact (h.markToken.advance hahead).goto_field hi rfl rfl
  | gap hahead => exact h.markToken.advance hahead
  | startEnd | bare => exact h.beginToken.goto_field hi rfl rfl
  | quote hahead => exact (h.beginToken.advance hahead).goto_field hi rfl rfl
  | bracket hahead =>
    exact ((h.beginToken.assign field.name (.list [])).advance hahead).goto_field hi rfl rfl
  | push hahead => exact h.push hahead _
  | complete => exact h.goto_field hi rfl rfl
  | quoted hquoted => exact hquoted.reading h hi rfl rfl
  | endBare hend | endQuoted hend => exact hend.reading h

theorem ListMoves.reading {stage : ListStage} (hmove : ListMoves field i s stage t)
    (h : Reading form text s) (hi : i < form.fields.length) : Reading form text t := by
  cases hmove with
  | gap _ hahead => exact h.advance hahead
  | close _ hahead | comma hahead => exact (h.advance hahead).goto_field hi rfl rfl
  | begin | complete => exact h.goto_field hi rfl rfl
  | startEnd | bare => exact h.beginToken.goto_field hi rfl rfl
  | quote hahead => exact (h.beginToken.advance hahead).goto_field hi rfl rfl
  | push hahead => exact h.push hahead _
  | quoted hquoted => exact hquoted.reading h hi rfl rfl
  | append =>
    have happended : Reading form text { s with
        values := appendTo field.name s.token s.values, token := "" } :=
      ⟨h.text_eq, h.isParameter, h.field_lt, h.tokenStart_le, h.cursor_le⟩
    exact happended.goto_field hi rfl rfl

/-- A move keeps a scan in its bounds. -/
theorem Moves.reading (hmove : Moves form mode s t) (h : Reading form text s) :
    Reading form text t := by
  cases hmove with
  | dash _ hahead => exact (h.advance hahead).goto rfl rfl
  | positional _ _ _ hi => exact h.countPositional.goto_field (lt_of_findIdx? hi) rfl rfl
  | rest _ _ _ hi => exact h.countPositional.beginToken.goto_field (lt_of_findIdx? hi) rfl rfl
  | gap _ hahead => exact h.markToken.advance hahead
  | begin => exact h.markToken.goto rfl rfl
  | secondDash _ hahead => exact (h.advance hahead).beginToken.goto rfl rfl
  | singleDash | listEnd => exact h.beginToken.goto rfl rfl
  | name _ hahead => exact h.push hahead _
  | flag _ _ hi => exact h.clearToken.goto_field (lt_of_findIdx? hi) rfl rfl
  | value hfield _ hvalue => exact hvalue.reading h (List.getElem?_eq_some_iff.mp hfield).1
  | list hfield _ hlist => exact hlist.reading h (List.getElem?_eq_some_iff.mp hfield).1

theorem CutsQuotation.reading {q : Quote} (hcut : CutsQuotation q s t) (h : Reading form text s) :
    Reading form text t := by
  cases hcut with
  | nil => exact h
  | backslash _ hahead => exact h.advance hahead

/-- A scan stops in its bounds. -/
theorem Stops.reading (hstops : Stops form mode s t) (h : Reading form text s) :
    Reading form text t := by
  cases hstops with
  | startParameter | element | elementSeparator | listEnd => exact h.beginToken
  | parameterSeparator => exact h.markToken.goto rfl rfl
  | separator => exact h.markToken
  | flagName | endBare | endQuoted | bareElement => exact h
  | quotedValue _ _ hcut | quotedElement _ _ hcut => exact hcut.reading h
  | close => exact (h.assign _ _).clearToken.markToken
  | rest =>
    have hend : s.tokenStart ≤ s.text.length :=
      h.text_eq ▸ Nat.le_trans h.tokenStart_le h.cursor_le
    exact ⟨h.text_eq, h.isParameter, h.field_lt, hend, Nat.le_of_eq (congrArg _ h.text_eq)⟩

theorem QuotedFails.reading {q : Quote} (hfails : QuotedFails mode q s t e)
    (h : Reading form text s) : Reading form text t := by
  cases hfails with
  | empty => exact h
  | cut _ hcut => exact hcut.reading h

/-- So does one that fails. -/
theorem Fails.reading (hfails : Fails form mode s t e) (h : Reading form text s) :
    Reading form text t := by
  cases hfails with
  | position => exact h.countPositional
  | equals => exact h.markToken
  | blank | listCut | emptyElement | behindList => exact h.beginToken
  | quotedValue _ hquoted | quotedElement _ hquoted => exact hquoted.reading h
  | flag | behindQuotation | missing | elementCut | noElement | inElement | behindElement =>
    exact h

/-- A step keeps a scan in its bounds, whether the run goes on, stops or fails behind it. -/
theorem reading_parameterStep (h : Reading form text s) :
    Reading form text (parameterStep form mode s).scan :=
  scan_parameterStep (fun _ hmove => hmove.reading h) (fun _ hstops => hstops.reading h)
    (fun _ _ hfails => hfails.reading h) h

/-- What a step makes of a scan in its bounds is the next scan of the run. -/
theorem Reading.next (h : Reading form text s) (hstep : parameterStep form mode s = .next t) :
    Reading form text t :=
  (moves_of_parameterStep hstep).reading h

/-- The last step of a run that stops is one of those that `Stops` has. -/
theorem Reading.stops (h : Reading form text s) (hstep : parameterStep form mode s = .stop t) :
    Stops form mode s t :=
  (stops_of_parameterStep hstep).resolve_right fun houtside => houtside.1 h.inForm

/-- What the last step of a run stops in is in its bounds, too. -/
theorem Reading.stop (h : Reading form text s) (hstep : parameterStep form mode s = .stop t) :
    Reading form text t :=
  (h.stops hstep).reading h

/-- A run leaves the text as it is. -/
theorem Reading.text_readForm (h : Reading form text s) : (readForm form mode s).text = text := by
  refine run_invariant (Reading form text) (fun t => t.text = text) ?_ ?_ ?_ h
  · exact fun u v hu hstep => hu.next hstep
  · exact fun u v hu hstop => (hu.stop hstop).text_eq
  · exact fun u v e hu hfail => ((fails_of_parameterStep hfail).reading hu).text_eq

end Scan

end SlashCommand
