import SlashCommand.Proofs.Scan.Bounds

/-!
# The two modes of a scan

A command is scanned in one mode to execute it and in another while it is typed.  Without boolean
fields the modes part only at the end of the text: up to there the two runs make the same steps, and
there the one for typing stops where the other one goes on, to an error or to a last value.  With
them there is one more place, a truth value that is cut short in the middle of the text.

* `parameterStep_execute`: a step is the same in both modes, unless a truth value is cut short there
  or the step stops the run for typing.
* `ValueBegun`: while a command is typed, a bare value is never entered without a character for it.
  This is what makes the last value of a command complete as it stands.
* `completes_of_stop`: where the run for typing stops, the run for executing ends as `Completes`
  says.

`parseForm_completes` joins the three along whole runs.
-/

namespace SlashCommand

/-- The end of the text cuts the state short: a name, a quotation or a list is still open. -/
def ScanState.isOpen : ScanState → Bool
  | flagName => true
  | value _ (.separator _) => true
  | value _ (.quoted _) => true
  | list _ _ => true
  | _ => false

/-- The state is inside the name of a flag, a value or a list. -/
def ScanState.isInside : ScanState → Bool
  | flagName => true
  | value _ _ => true
  | list _ _ => true
  | _ => false

namespace Scan

/-- How the outcome `e` of a run for executing follows from the outcome `a` of a run for typing,
for a text of the given length.  An error is an error in both.  Between parameters and in the rest
of the line there is nothing to add, and a value that is complete as it stands is added.  Anything
else is cut short by the end of the text. -/
def Completes (form : Form) (length : Nat) (a e : Scan) : Prop :=
  match a.state with
  | .failed error => e.state = .failed error
  | .startParameter | .listEnd _ | .rest _ => e.state = a.state ∧ e.values = a.values
  | .value i .endBare | .value i (.endQuoted _) =>
    ∃ field, form.fields[i]? = some field ∧ e.isFailed = false ∧
      e.values = a.values.insert field.name (.ofToken field.multiselect a.token)
  | _ => ∃ error, e.state = .failed ⟨error, length⟩

variable {form : Form} {s t : Scan} {i : Nat}

/-! ## Steps in the two modes -/

/-- The token is the beginning of a truth value and no more, although the text goes on. -/
def CutsBool (s : Scan) : Prop :=
  acceptsBool .autocomplete s.token = true ∧ acceptsBool .execute s.token = false ∧ s.peek? ≠ none

instance : Decidable (CutsBool s) := inferInstanceAs (Decidable (_ ∧ _ ∧ _))

/-- The field whose value has come to its end. -/
def endedField? (form : Form) (s : Scan) : Option Field :=
  match s.state with
  | .value i .endBare => form.fields[i]?
  | .value i (.endQuoted _) => form.fields[i]?
  | _ => none

/-- The scan has come to the end of a truth value that is cut short. -/
def IsAbbreviated (form : Form) (s : Scan) : Prop :=
  (endedField? form s).any (·.type == .bool) = true ∧ CutsBool s

instance : Decidable (IsAbbreviated form s) := inferInstanceAs (Decidable (_ ∧ _))

theorem flagNameStep_execute (form : Form) (s : Scan) :
    flagNameStep form .execute s = flagNameStep form .autocomplete s ∨
      ∃ t, flagNameStep form .autocomplete s = .stop t ∧ t.state = s.state := by
  unfold flagNameStep
  split
  · exact .inr ⟨s, if_pos rfl, rfl⟩
  · exact .inl rfl

theorem valueSeparatorStep_execute (i : Nat) (equalsSeen : Bool) (s : Scan) :
    valueSeparatorStep .execute i equalsSeen s = valueSeparatorStep .autocomplete i equalsSeen s ∨
      ∃ t, valueSeparatorStep .autocomplete i equalsSeen s = .stop t ∧ t.state = s.state := by
  unfold valueSeparatorStep
  dsimp only
  split
  · exact .inr ⟨s.markToken, if_pos rfl, rfl⟩
  · exact .inl rfl

theorem quotedStep_execute (q : Quote) (closed : ScanState) (s : Scan) :
    quotedStep .execute q closed s = quotedStep .autocomplete q closed s ∨
      ∃ t, quotedStep .autocomplete q closed s = .stop t ∧ t.state = s.state := by
  unfold quotedStep
  split
  · exact .inr ⟨s, rfl, rfl⟩
  · split
    · exact .inl rfl
    · split
      · split
        · exact .inr ⟨s.advance, rfl, rfl⟩
        · exact .inl rfl
      · exact .inl rfl

theorem acceptsBool_autocomplete {token : String} (h : acceptsBool .execute token = true) :
    acceptsBool .autocomplete token = true := by
  rcases Bool.or_eq_true_iff.mp h with htoken | htoken
  · rw [beq_iff_eq.mp htoken]
    decide
  · rw [beq_iff_eq.mp htoken]
    decide

/-- Behind a value the modes part only where a truth value is cut short, and at the end of the
text. -/
theorem valueEndStep_execute {field : Field} (quoted : Bool)
    (h : ¬ (field.type = .bool ∧ CutsBool s)) :
    valueEndStep .execute field quoted s = valueEndStep .autocomplete field quoted s ∨
      ∃ t, valueEndStep .autocomplete field quoted s = .stop t ∧ t.state = s.state := by
  unfold valueEndStep
  split
  · exact .inl rfl
  · by_cases hauto : field.type = .bool ∧ !acceptsBool .autocomplete s.token
    · have hexecute : field.type = .bool ∧ !acceptsBool .execute s.token := by
        refine ⟨hauto.1, ?_⟩
        rw [Bool.not_eq_true', Bool.eq_false_iff]
        intro haccepts
        have hnot := hauto.2
        rw [acceptsBool_autocomplete haccepts] at hnot
        cases hnot
      rw [if_pos hexecute, if_pos hauto]
      exact .inl rfl
    · rw [if_neg hauto]
      by_cases hend : s.peek? = none
      · exact .inr ⟨s, if_pos ⟨rfl, hend⟩, rfl⟩
      · have hexecute : ¬ (field.type = .bool ∧ !acceptsBool .execute s.token) := by
          rintro ⟨hbool, hnot⟩
          refine h ⟨hbool, ?_, by simpa using hnot, hend⟩
          simpa [hbool] using hauto
        have hgo (mode : ScanMode) : ¬ (mode = .autocomplete ∧ s.peek? = none) := fun h => hend h.2
        rw [if_neg hexecute, if_neg (hgo .execute), if_neg (hgo .autocomplete)]
        exact .inl rfl

theorem elementStep_execute (i : Nat) (afterComma : Bool) (s : Scan) :
    elementStep .execute i afterComma s = elementStep .autocomplete i afterComma s ∨
      ∃ t, elementStep .autocomplete i afterComma s = .stop t ∧ t.state = s.state := by
  unfold elementStep
  split
  · exact .inr ⟨s.beginToken, rfl, rfl⟩
  · exact .inl rfl

theorem bareElementStep_execute (i : Nat) (s : Scan) :
    bareElementStep .execute i s = bareElementStep .autocomplete i s ∨
      ∃ t, bareElementStep .autocomplete i s = .stop t ∧ t.state = s.state := by
  unfold bareElementStep
  split
  · exact .inr ⟨s, rfl, rfl⟩
  · exact .inl rfl

theorem elementSeparatorStep_execute (i : Nat) (s : Scan) :
    elementSeparatorStep .execute i s = elementSeparatorStep .autocomplete i s ∨
      ∃ t, elementSeparatorStep .autocomplete i s = .stop t ∧ t.state = s.state := by
  unfold elementSeparatorStep
  split
  · exact .inr ⟨s.beginToken, rfl, rfl⟩
  · exact .inl rfl

/-- A step is the same in both modes, unless a truth value is cut short there, or the step stops the
run for typing inside a parameter. -/
theorem parameterStep_execute (h : ¬ IsAbbreviated form s) :
    parameterStep form .execute s = parameterStep form .autocomplete s ∨
      ∃ t, parameterStep form .autocomplete s = .stop t ∧ t.state.isInside = true := by
  have inside {step : Step} (hinside : s.state.isInside = true)
      (hstop : ∃ t, step = .stop t ∧ t.state = s.state) :
      ∃ t, step = .stop t ∧ t.state.isInside = true := by
    obtain ⟨t, ht, hstate⟩ := hstop
    exact ⟨t, ht, hstate ▸ hinside⟩
  unfold parameterStep
  split
  case h_4 hstate =>
    exact (flagNameStep_execute form s).imp_right (inside (by rw [hstate]; rfl))
  case h_5 i stage hstate =>
    split
    · rename_i field hfield
      have hinside : s.state.isInside = true := by
        rw [hstate]
        rfl
      unfold valueStep
      cases stage with
      | separator equalsSeen =>
        exact (valueSeparatorStep_execute i equalsSeen s).imp_right (inside hinside)
      | start => exact .inl rfl
      | bare => exact .inl rfl
      | quoted q => exact (quotedStep_execute q _ s).imp_right (inside hinside)
      | endBare =>
        have hcut : ¬ (field.type = .bool ∧ CutsBool s) := fun hcut =>
          h ⟨by simp [endedField?, hstate, hfield, hcut.1], hcut.2⟩
        exact (valueEndStep_execute false hcut).imp_right (inside hinside)
      | endQuoted q =>
        have hcut : ¬ (field.type = .bool ∧ CutsBool s) := fun hcut =>
          h ⟨by simp [endedField?, hstate, hfield, hcut.1], hcut.2⟩
        exact (valueEndStep_execute true hcut).imp_right (inside hinside)
    · exact .inl rfl
  case h_6 i stage hstate =>
    split
    · have hinside : s.state.isInside = true := by
        rw [hstate]
        rfl
      unfold listStep
      cases stage with
      | start => exact (elementStep_execute i false s).imp_right (inside hinside)
      | next => exact (elementStep_execute i true s).imp_right (inside hinside)
      | elementStart => exact .inl rfl
      | bare => exact (bareElementStep_execute i s).imp_right (inside hinside)
      | quoted q => exact (quotedStep_execute q _ s).imp_right (inside hinside)
      | elementEnd => exact .inl rfl
      | separator => exact (elementSeparatorStep_execute i s).imp_right (inside hinside)
    · exact .inl rfl
  all_goals exact .inl rfl

theorem mem_of_endedField? {field : Field} (h : endedField? form s = some field) :
    field ∈ form.fields := by
  unfold endedField? at h
  split at h
  · exact List.mem_of_getElem? h
  · exact List.mem_of_getElem? h
  · cases h

theorem not_isAbbreviated (hform : ∀ f ∈ form.fields, f.type ≠ .bool) : ¬ IsAbbreviated form s := by
  rintro ⟨hended, -⟩
  obtain ⟨field, hfield, hbool⟩ := (Option.any_eq_true _ _).mp hended
  exact hform field (mem_of_endedField? hfield) (beq_iff_eq.mp hbool)

theorem parameterStep_execute_of_ne_stop {step : Step} (hform : ∀ f ∈ form.fields, f.type ≠ .bool)
    (h : parameterStep form .autocomplete s = step) (hne : ∀ t, step ≠ .stop t) :
    parameterStep form .execute s = step := by
  refine ((parameterStep_execute (not_isAbbreviated hform)).resolve_right ?_).trans h
  rintro ⟨t, ht, -⟩
  exact hne t (h.symm.trans ht)

/-! ## A bare value that is typed -/

/-- A bare value begins with a character, which is ahead or has been read. -/
def ValueBegun (s : Scan) : Prop :=
  match s.state with
  | .value _ .start => s.ahead ≠ []
  | .value _ .bare => s.token ≠ "" ∨ ∃ c r, s.ahead = c :: r ∧ Text.isBlank c = false
  | .value _ .endBare => s.token ≠ ""
  | _ => True

/-- The state is in a bare value, or in front of a value. -/
def inBareValue : ScanState → Bool
  | .value _ .start => true
  | .value _ .bare => true
  | .value _ .endBare => true
  | _ => false

theorem valueBegun_of_inBareValue (h : inBareValue s.state = false) : ValueBegun s := by
  unfold ValueBegun
  split
  case h_4 => trivial
  all_goals
    rename_i hstate
    rw [hstate] at h
    cases h

/-- A step that stays in its state is outside a bare value if the state is. -/
theorem valueBegun_of_state {state : ScanState} (hstate : t.state = state)
    (h : inBareValue state = false) : ValueBegun t := by
  subst hstate
  exact valueBegun_of_inBareValue h

/-- Outside bare values there is nothing to keep. -/
theorem QuotedMoves.valueBegun {q : Quote} {closed : ScanState} (hmove : QuotedMoves q closed s t)
    (hstate : inBareValue s.state = false) (hclosed : inBareValue closed = false) :
    ValueBegun t := by
  cases hmove with
  | close => exact valueBegun_of_inBareValue hclosed
  | escape | plain => exact valueBegun_of_inBareValue hstate

theorem ListMoves.valueBegun {field : Field} {stage : ListStage}
    (hmove : ListMoves field i s stage t) (hstate : s.state = .list i stage) : ValueBegun t := by
  have hlist : inBareValue s.state = false := by
    rw [hstate]
    rfl
  cases hmove with
  | gap | push => exact valueBegun_of_inBareValue hlist
  | quoted hquoted => exact hquoted.valueBegun hlist rfl
  | _ => exact valueBegun_of_inBareValue rfl

theorem ValueMoves.valueBegun {field : Field} {stage : ValueStage}
    (hmove : ValueMoves .autocomplete field i s stage t) (hstate : s.state = .value i stage)
    (h : ValueBegun s) : ValueBegun t := by
  rw [ValueBegun, hstate] at h
  cases hmove with
  | separatorEnd hexecute => cases hexecute
  | begin hahead => exact (hahead ▸ List.cons_ne_nil _ _ : s.ahead ≠ [])
  | gap => exact valueBegun_of_state (show s.state = _ from hstate) rfl
  | startEnd hnil => exact absurd hnil h
  | bare hahead hbegins => exact .inr ⟨_, _, hahead, hbegins.2.2⟩
  | push =>
    rw [ValueBegun, Scan.push, hstate]
    exact .inl (push_ne_empty s.token _)
  | complete hblank =>
    refine h.resolve_right ?_
    rintro ⟨c, r, hahead, hplain⟩
    rw [hahead] at hblank
    rw [hblank c rfl] at hplain
    cases hplain
  | quoted hquoted => exact hquoted.valueBegun (by rw [hstate]; rfl) rfl
  | endBare hend | endQuoted hend =>
    cases hend with
    | rescan | close => exact valueBegun_of_inBareValue rfl
  | equals | quote | bracket => exact valueBegun_of_inBareValue rfl

/-- While a command is typed, every step keeps the beginning of a bare value. -/
theorem ValueBegun.next (h : ValueBegun s) (hs : parameterStep form .autocomplete s = .next t) :
    ValueBegun t := by
  cases moves_of_parameterStep hs with
  | positional _ hahead => exact (hahead ▸ List.cons_ne_nil _ _ : s.ahead ≠ [])
  | gap hstate | name hstate => exact valueBegun_of_state (show s.state = _ from hstate) rfl
  | value _ hstate hmove => exact hmove.valueBegun hstate h
  | list _ hstate hmove => exact hmove.valueBegun hstate
  | _ => exact valueBegun_of_inBareValue rfl

/-! ## Where a run for typing stops -/

variable {field : Field} {text : List Char}

/-- An executed command that ends in the name of a flag fails, whether there is such a flag or
not. -/
theorem readForm_flagName_nil (hform : ∀ f ∈ form.fields, f.type ≠ .bool)
    (hstate : s.state = .flagName) (h : s.ahead = []) :
    ∃ error, (readForm form .execute s).state = .failed ⟨error, s.cursor⟩ := by
  have hstep : parameterStep form .execute s = flagEndStep form s :=
    step_flagName_end hstate (.inl ⟨h, rfl⟩)
  unfold flagEndStep at hstep
  split at hstep
  · rename_i i hi
    have hlt := lt_of_findIdx? hi
    have hfield : form.fields[i]? = some form.fields[i] := List.getElem?_eq_getElem hlt
    refine ⟨.missingFieldValue form.fields[i].name, ?_⟩
    rw [readForm_of_next hstep]
    exact readForm_separator_nil hfield (hform _ (List.getElem_mem hlt)) rfl h
  · refine ⟨.unexpectedFlag s.token, ?_⟩
    rw [readForm_of_fail hstep]
    rfl

/-! ## The outcomes compared -/

theorem completes_of_isOpen {length : Nat} {a e : Scan} {error : GrammarError}
    (ha : a.state.isOpen = true) (he : e.state = .failed ⟨error, length⟩) :
    Completes form length a e := by
  unfold Completes
  split
  case h_7 => exact ⟨error, he⟩
  all_goals
    rename_i hstate
    rw [hstate] at ha
    cases ha

theorem completes_of_failed {length : Nat} {a e : Scan} {error : ParseError}
    (ha : a.state = .failed error) (he : e.state = .failed error) : Completes form length a e := by
  unfold Completes
  rw [ha]
  exact he

theorem exists_failed (h : s.isFailed = true) : ∃ error, s.state = .failed error := by
  cases hstate : s.state with
  | failed error => exact ⟨error, rfl⟩
  | _ =>
    rw [isFailed, hstate] at h
    cases h

theorem completes_self {length : Nat}
    (h : t.state = .startParameter ∨ (∃ i, t.state = .listEnd i) ∨ ∃ i, t.state = .rest i) :
    Completes form length t t := by
  unfold Completes
  rcases h with h | ⟨i, h⟩ | ⟨i, h⟩
  all_goals
    rw [h]
    exact ⟨rfl, rfl⟩

/-- The scan `t` is `s` at the end of the text, in the middle of a token. -/
structure CutsShort (s t : Scan) : Prop where
  state : t.state = s.state
  ahead : t.ahead = []

theorem CutsQuotation.cutsShort {q : Quote} (h : CutsQuotation q s t) : CutsShort s t :=
  ⟨h.state_eq, h.ahead_eq⟩

/-- Where the text cuts a token short, a run for executing fails at the end of the text. -/
theorem completes_of_cutsShort {e : GrammarError} (hopen : s.state.isOpen = true)
    (ht : Reading form text t) (hcut : CutsShort s t)
    (hs : parameterStep form .execute s = .fail t e) :
    Completes form text.length t (readForm form .execute s) := by
  have hcursor : t.cursor = text.length := ht.cursor_eq hcut.ahead
  have htopen : t.state.isOpen = true := by
    rw [hcut.state]
    exact hopen
  have he : (readForm form .execute s).state = .failed ⟨e, text.length⟩ := by
    rw [readForm_of_fail hs, ← hcursor]
    rfl
  exact completes_of_isOpen htopen he

/-- Where a value is complete as it stands, all that a run for executing adds is to give it to its
field. -/
theorem completes_of_valueEnd {quoted : Bool} {stage : ValueStage}
    (hfield : form.fields[i]? = some field) (hbool : field.type ≠ .bool)
    (hstate : s.state = .value i stage)
    (hstage : stage = .endBare ∧ s.token ≠ "" ∧ quoted = false ∨
      ∃ q, stage = .endQuoted q ∧ quoted = true)
    (hnil : s.ahead = [])
    (hexecute : parameterStep form .execute s = valueEndStep .execute field quoted s) :
    Completes form text.length s (readForm form .execute s) := by
  have hne : quoted = true ∨ s.token ≠ "" := by
    rcases hstage with ⟨-, hne, -⟩ | ⟨q, -, hquoted⟩
    · exact .inr hne
    · exact .inl hquoted
  have hclosed : readForm form .execute s = s.closeValue field := by
    refine readForm_of_stop ?_
    have hblank : StartsBlank s.ahead := by
      rw [hnil]
      exact startsBlank_nil
    rw [hexecute, valueEndStep_execute_of_end hblank (fun htype => absurd htype hbool) hne,
      if_pos hnil]
  have hfailed : (s.closeValue field).isFailed = false := by
    show s.state.isFailed = false
    rw [hstate]
    rfl
  rw [hclosed]
  unfold Completes
  rcases hstage with ⟨rfl, -⟩ | ⟨q, rfl, -⟩
  all_goals
    rw [hstate]
    exact ⟨field, hfield, hfailed, rfl⟩

/-- Where a run for typing stops, a run for executing ends as the stop says. -/
theorem completes_of_stop (hform : ∀ f ∈ form.fields, f.type ≠ .bool) (hs : Reading form text s)
    (hbegun : ValueBegun s) (h : parameterStep form .autocomplete s = .stop t) :
    Completes form text.length t (readForm form .execute s) := by
  have ht : Reading form text t := hs.stop h
  have hopen {state : ScanState} (hstate : s.state = state) (hopen : state.isOpen = true) :
      s.state.isOpen = true := hstate ▸ hopen
  cases hs.stops h with
  | startParameter hstate hnil =>
    rw [readForm_of_stop (step_startParameter_nil hstate hnil)]
    exact completes_self (.inl hstate)
  | parameterSeparator hstate hnil =>
    rw [readForm_of_stop (step_parameterSeparator_nil hstate hnil)]
    exact completes_self (.inl rfl)
  | flagName hstate hnil =>
    obtain ⟨e, he⟩ := readForm_flagName_nil hform hstate hnil
    rw [hs.cursor_eq hnil] at he
    exact completes_of_isOpen (hopen hstate rfl) he
  | separator hfield hstate hnil =>
    have he := readForm_separator_nil hfield (hform _ (List.mem_of_getElem? hfield)) hstate hnil
    rw [hs.cursor_eq hnil] at he
    exact completes_of_isOpen (hopen hstate rfl) he
  | quotedValue hfield hstate hcut =>
    exact completes_of_cutsShort (hopen hstate rfl) ht hcut.cutsShort
      ((parameterStep_value hfield hstate).trans (hcut.execute _))
  | endBare hfield hstate hnil =>
    rw [ValueBegun, hstate] at hbegun
    exact completes_of_valueEnd hfield (hform _ (List.mem_of_getElem? hfield)) hstate
      (.inl ⟨rfl, hbegun, rfl⟩) hnil (parameterStep_value hfield hstate)
  | @endQuoted _ i q field hfield hstate hnil =>
    exact completes_of_valueEnd hfield (hform _ (List.mem_of_getElem? hfield)) hstate
      (.inr ⟨q, rfl, rfl⟩) hnil (parameterStep_value hfield hstate)
  | element hfield hstate hstage hnil =>
    rcases hstage with rfl | rfl
    all_goals
      exact completes_of_cutsShort (hopen hstate rfl) ht ⟨rfl, hnil⟩
        ((parameterStep_list hfield hstate).trans (elementStep_nil hnil))
  | bareElement hfield hstate hnil =>
    exact completes_of_cutsShort (hopen hstate rfl) ht ⟨rfl, hnil⟩
      ((parameterStep_list hfield hstate).trans (bareElementStep_nil hnil))
  | quotedElement hfield hstate hcut =>
    exact completes_of_cutsShort (hopen hstate rfl) ht hcut.cutsShort
      ((parameterStep_list hfield hstate).trans (hcut.execute _))
  | elementSeparator hfield hstate hnil =>
    exact completes_of_cutsShort (hopen hstate rfl) ht ⟨rfl, hnil⟩
      ((parameterStep_list hfield hstate).trans (elementSeparatorStep_nil hnil))
  | @listEnd _ _ i hstate hnil =>
    rw [readForm_of_stop (step_listEnd_nil hstate hnil)]
    exact completes_self (.inr (.inl ⟨i, hstate⟩))
  | @rest _ _ i field hfield hstate =>
    rw [readForm_of_stop (step_rest hfield hstate)]
    exact completes_self (.inr (.inr ⟨i, hstate⟩))

/-! ## Whole runs -/

/-- The runs in the two modes agree from any scan in the course of reading parameters. -/
theorem readForm_completes (hform : ∀ f ∈ form.fields, f.type ≠ .bool) (hs : Reading form text s)
    (hbegun : ValueBegun s) :
    Completes form text.length (readForm form .autocomplete s) (readForm form .execute s) := by
  -- up to the end of the run for typing, the run for executing is in the same scan
  refine run_lockstep (fun u => Reading form text u ∧ ValueBegun u) _ ?_ ?_ ?_ ⟨hs, hbegun⟩
  · rintro u v ⟨hu, hub⟩ hstep
    have hexecute : parameterStep form .execute u = .next v :=
      parameterStep_execute_of_ne_stop hform hstep fun _ h => Step.noConfusion h
    exact ⟨hexecute, hu.next hstep, hub.next hstep⟩
  · rintro u v ⟨hu, hub⟩ hstep
    exact completes_of_stop hform hu hub hstep
  · rintro u v e - hstep
    have hexecute : parameterStep form .execute u = .fail v e :=
      parameterStep_execute_of_ne_stop hform hstep fun _ h => Step.noConfusion h
    exact completes_of_failed rfl (congrArg Scan.state (readForm_of_fail hexecute))

/-- **The modes agree.**  For a form without boolean fields, and any scan that the form is attached
to, the run that executes the command follows from the run that completes it: errors and the
outcomes between parameters are the same, a last value that is complete is added, and a command that
is cut short fails at its end. -/
theorem parseForm_completes (hform : ∀ f ∈ form.fields, f.type ≠ .bool) (m : Scan) :
    Completes form m.text.length ((m.withForm form).parseForm .autocomplete)
      ((m.withForm form).parseForm .execute) := by
  rw [parseForm_withForm, parseForm_withForm]
  by_cases hfailed : m.isFailed = true
  · rw [if_pos hfailed, if_pos hfailed]
    obtain ⟨error, hstate⟩ := exists_failed hfailed
    exact completes_of_failed hstate hstate
  · rw [if_neg hfailed, if_neg hfailed]
    by_cases hstart : m.tokenStart ≤ m.text.length
    · have hwith : (m.withForm form).tokenStart ≤ (m.withForm form).text.length := hstart
      exact readForm_completes hform (Reading.rewind hwith) (valueBegun_of_inBareValue rfl)
    · -- nothing is ahead of a token beyond the text
      have hahead : (m.withForm form).rewind.ahead = [] := List.drop_eq_nil_of_le (by
        show m.text.length ≤ m.tokenStart
        omega)
      rw [readForm_of_stop (step_startParameter_nil rfl hahead),
        readForm_of_stop (step_startParameter_nil rfl hahead)]
      exact completes_self (.inl rfl)

/-- A greeting whose last value is complete as it stands. -/
theorem parseForm_completes_greeting :
    let form : Form := { fields := [{ name := "to" }, { name := "note", multiselect := true }] }
    let m := (ofText "/greet --to bob").matchBinding [{ label := "greet" }] .execute
    (∀ f ∈ form.fields, f.type ≠ .bool) ∧
      Completes form 15 ((m.withForm form).parseForm .autocomplete)
        ((m.withForm form).parseForm .execute) := by
  intro form m
  have hform : ∀ f ∈ form.fields, f.type ≠ .bool := by decide
  have htext : m.text.length = 15 := by
    rw [(sameInput_matchBinding _ _ _).text]
    decide
  refine ⟨hform, ?_⟩
  rw [← htext]
  exact parseForm_completes hform m

end Scan

end SlashCommand
