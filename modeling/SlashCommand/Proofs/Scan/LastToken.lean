import SlashCommand.Proofs.Scan.Endings
import SlashCommand.Proofs.Scan.Replacement

/-!
# The last token of a command

Where a scan for typing stops, the text from its last token on can be replaced.

* `Traced.stop`: what is spelled there for a field is accepted in the place of the last token, by
  the field and by nothing else.
* `Traced.echoes`: the token that is typed for a field is accepted again in the marks it stands in,
  if nothing in it had to be escaped.
* `lastToken_readForm`: both of them, and what is known of the rest of the line, for a whole scan.
-/

namespace SlashCommand

namespace Scan

variable {form : Form} {mode : ScanMode} {field : Field} {a s t v : Scan} {i k : Nat} {c : Char}
  {values : Values} {w r text token : List Char}

/-! ## What is accepted in the place of the last token -/

/-- The text spells the token in the place where the scan stands.  Behind an element of a list no
other can stand without a comma. -/
def Spells (s : Scan) (field : Field) (text token : List Char) : Prop :=
  match s.state with
  | .startParameter => TokenText field text token
  | .value _ _ => TokenText field text token
  | .list _ .separator => False
  | .list _ _ => ElementText text token
  | _ => False

/-- The text can take the place of the last token, and is read as the given token there. -/
structure Takes (form : Form) (a s : Scan) (field : Field) (text token : List Char) : Prop where
  spells : s.Spells field text token
  /-- The text begins with a mark only if the last token does. -/
  marks : s.state.isListElement = false → ∀ c ∈ text.head?, IsMark form a s.tokenStart c →
    s.text[s.tokenStart]? = some c
  /-- A truth value is not given to a boolean field that was left out before. -/
  truth : Passes form a s.tokenStart (AwaitsTruth form) →
    String.ofList token = "true" ∨ String.ofList token = "false" →
    acceptsBool .autocomplete s.token = true

/-- What closes the list that is open. -/
def closing (s : Scan) : List Char := if s.state.isListElement then [']'] else []

/-- The values with the token as the value of the field, or as the last element of its list if the
list is open. -/
def accept (s : Scan) (field : Field) (token : String) : Values :=
  if s.state.isListElement then appendTo field.name token s.values
  else s.values.insert field.name (.ofToken field.multiselect token)

theorem closing_of_value (h : s.state.isListElement = false) : s.closing = [] :=
  if_neg (by rw [h]; exact Bool.false_ne_true)

theorem closing_of_list (h : s.state.isListElement = true) : s.closing = [']'] := if_pos h

theorem accept_of_value (h : s.state.isListElement = false) (field : Field) (token : String) :
    s.accept field token = s.values.insert field.name (.ofToken field.multiselect token) :=
  if_neg (by rw [h]; exact Bool.false_ne_true)

theorem accept_of_list (h : s.state.isListElement = true) (field : Field) (token : String) :
    s.accept field token = appendTo field.name token s.values := if_pos h

/-- A token that ends the text is given to its field. -/
theorem outcome_lastValue (hfield : form.fields[i]? = some field) (hbool : field.type ≠ .bool)
    (h : TokenText field text token) (hs : Stands (.value i .start) k values text s) :
    outcome form s =
      some (values.insert field.name (.ofToken field.multiselect (String.ofList token))) := by
  obtain ⟨t, ht, hout⟩ := outcome_tokenText (r := []) hfield h (fun htype => absurd htype hbool)
    startsBlank_nil (by rwa [List.append_nil])
  rw [hout, outcome_parameterSeparator_nil ht]

/-- A parameter by position that ends the text is given to its field. -/
theorem outcome_lastParameter (hfield : form.positional? (k + 1 : Nat) = some field)
    (hbool : field.type ≠ .bool) (h : TokenText field text token) (hdash : text.head? ≠ some '-')
    (hs : Stands .startParameter k values text s) :
    outcome form s =
      some (values.insert field.name (.ofToken field.multiselect (String.ofList token))) := by
  obtain ⟨c, r, rfl, -⟩ := h.exists_cons
  obtain ⟨i, t, hget, ht, hout⟩ := outcome_positional (fun hc => hdash (congrArg some hc)) hfield hs
  rw [hout, outcome_lastValue hget hbool h ht]

/-- An element that ends the text, but for the closing bracket, is appended to its list. -/
theorem outcome_lastElement (hfield : form.fields[i]? = some field) (h : ElementText text token)
    (hs : Stands (.list i .elementStart) k values (text ++ [']']) s) :
    outcome form s = some (appendTo field.name (String.ofList token) values) := by
  obtain ⟨t, ht, hread⟩ := outcome_element hfield h (.inr (.inr rfl)) hs
  have hclose : parameterStep form .execute t = .next (t.advance.goto (.listEnd i)) := by
    rw [parameterStep_list hfield ht.state_eq]
    exact elementSeparatorStep_close ht.ahead_eq
  have hbehind : Stands (.listEnd i) k _ [] (t.advance.goto (.listEnd i)) :=
    ht.advance.goto (.listEnd i)
  obtain ⟨u, hu, hend⟩ : ∃ u, Stands .parameterSeparator k _ [] u ∧
      outcome form _ = outcome form u := outcome_listEnd startsBlank_nil hbehind
  rw [hread, outcome_of_next hclose, hend, outcome_parameterSeparator_nil hu]

/-- Whatever is accepted in the place of the last token, the command is then executed with the
values that it is accepted with. -/
def Accepts (form : Form) (a t : Scan) : Prop :=
  ∀ field text token, t.form = some form → t.awaitedField? = some field → field.type ≠ .bool →
    Takes form a t field text token →
    ∃ w r, a.ahead = w ++ r ∧ t.tokenStart = a.cursor + w.length ∧
      ∀ u, Stands .startParameter 0 ∅ (w ++ (text ++ t.closing)) u →
        outcome form u = some (t.accept field (String.ofList token))

theorem currentField?_eq (hform : s.form = some form) (hi : s.state.field? = some i) :
    s.currentField? = form.fields[i]? := by
  simp [currentField?, hform, hi]

/-- In a value the field of the value is awaited. -/
theorem awaitedField?_of_value {stage : ValueStage} (hform : s.form = some form)
    (hstate : s.state = .value i stage) : s.awaitedField? = form.fields[i]? := by
  rw [awaitedField?, hstate]
  exact currentField?_eq hform (by rw [hstate]; rfl)

/-- In a list the field of the list is awaited. -/
theorem awaitedField?_of_list {stage : ListStage} (hform : s.form = some form)
    (hstate : s.state = .list i stage) : s.awaitedField? = form.fields[i]? := by
  rw [awaitedField?, hstate]
  exact currentField?_eq hform (by rw [hstate]; rfl)

/-- In front of a parameter the field at the next position is awaited. -/
theorem positional?_of_awaitedField? (hform : s.form = some form)
    (hstate : s.state = .startParameter) (h : s.awaitedField? = some field) :
    form.positional? (s.positionals + 1 : Nat) = some field := by
  simp only [awaitedField?, hstate, hform, Option.bind_some, nextPositional?,
    Option.filter_eq_some_iff] at h
  exact h.1

/-- Between parameters, at the end of the text. -/
theorem accepts_startParameter (hpast : Past a w s)
    (hreach : Reaches (parameterStep form .autocomplete) a s) (hs : AwaitsParameter s.state)
    (hnil : s.ahead = []) (hstate : t.state = .startParameter) (htext : t.text = s.text)
    (hstart : t.tokenStart = s.cursor)
    (h : ∀ c r, Text.isBlank c = false → c ≠ '-' →
      ∀ u, Stands .startParameter 0 ∅ (w ++ c :: r) u →
        ∃ u', Stands .startParameter t.positionals t.values (c :: r) u' ∧
          outcome form u = outcome form u') : Accepts form a t := by
  intro field text token hform hfield hbool htakes
  have hlist : t.state.isListElement = false := by
    rw [hstate]
    rfl
  have hspells : TokenText field text token := by
    have hspells := htakes.spells
    rwa [Spells, hstate] at hspells
  have hdash : text.head? ≠ some '-' := by
    intro hhead
    have hsame := htakes.marks hlist '-' hhead (.inl ⟨rfl, s, hreach, hstart.symm, hs⟩)
    have hend : s.text[s.cursor]? = none := peek?_of_ahead_nil hnil
    rw [htext, hstart, hend] at hsame
    cases hsame
  refine ⟨w, s.ahead, hpast.ahead, hstart.trans hpast.cursor, fun u hu => ?_⟩
  rw [closing_of_value hlist, List.append_nil] at hu
  rw [accept_of_value hlist]
  obtain ⟨c, r, rfl, hblank⟩ := hspells.exists_cons
  obtain ⟨u', hu', hout⟩ := h c r hblank (fun hc => hdash (congrArg some hc)) u hu
  rw [hout]
  exact outcome_lastParameter (positional?_of_awaitedField? hform hstate hfield) hbool hspells hdash
    hu'

/-- A place where a value outside brackets is awaited. -/
theorem accepts_value {stage : ValueStage} (hpast : Past a w s) (hi : form.fields[i]? = some field)
    (hstate : t.state = .value i stage) (hstart : t.tokenStart = s.cursor)
    (h : ∀ text token, Takes form a t field text token → TokenText field text token →
      ∀ u, Stands .startParameter 0 ∅ (w ++ text) u →
        ∃ u', Stands (.value i .start) t.positionals t.values text u' ∧
          outcome form u = outcome form u') : Accepts form a t := by
  intro field' text token hform hfield hbool htakes
  have hlist : t.state.isListElement = false := by
    rw [hstate]
    rfl
  obtain rfl : field' = field := by
    rw [awaitedField?_of_value hform hstate, hi] at hfield
    exact (Option.some.inj hfield).symm
  have hspells : TokenText field' text token := by
    have hspells := htakes.spells
    rwa [Spells, hstate] at hspells
  refine ⟨w, s.ahead, hpast.ahead, hstart.trans hpast.cursor, fun u hu => ?_⟩
  rw [closing_of_value hlist, List.append_nil] at hu
  rw [accept_of_value hlist]
  obtain ⟨u', hu', hout⟩ := h text token htakes hspells u hu
  rw [hout]
  exact outcome_lastValue hi hbool hspells hu'

/-- A place where an element of a list is awaited. -/
theorem accepts_element {stage : ListStage} (hpast : Past a w s) (hi : form.fields[i]? = some field)
    (hstate : t.state = .list i stage) (hseparator : stage ≠ .separator)
    (hstart : t.tokenStart = s.cursor)
    (h : ∀ c text, Text.isBlank c = false → c ≠ ']' → c ≠ ',' →
      ∀ u, Stands .startParameter 0 ∅ (w ++ c :: text) u →
        ∃ u', Stands (.list i .elementStart) t.positionals t.values (c :: text) u' ∧
          outcome form u = outcome form u') : Accepts form a t := by
  intro field' text token hform hfield _ htakes
  have hlist : t.state.isListElement = true := by
    rw [hstate]
    rfl
  obtain rfl : field' = field := by
    rw [awaitedField?_of_list hform hstate, hi] at hfield
    exact (Option.some.inj hfield).symm
  have hspells : ElementText text token := by
    have hspells := htakes.spells
    rw [Spells, hstate] at hspells
    cases stage with
    | separator => exact absurd rfl hseparator
    | start | next | elementStart | bare | quoted | elementEnd => exact hspells
  refine ⟨w, s.ahead, hpast.ahead, hstart.trans hpast.cursor, fun u hu => ?_⟩
  rw [closing_of_list hlist] at hu
  rw [accept_of_list hlist]
  obtain ⟨c, r, hcons, hblank, hclose, hcomma⟩ := hspells.exists_cons
  rw [hcons] at hu
  obtain ⟨u', hu', hout⟩ := h c (r ++ [']']) hblank hclose hcomma u hu
  have hu'' : Stands (.list i .elementStart) t.positionals t.values (text ++ [']']) u' := by
    rw [hcons]
    exact hu'
  rw [hout]
  exact outcome_lastElement hi hspells hu''

/-- In other places nothing is accepted. -/
theorem accepts_of_not_spells (h : ∀ field text token, ¬ t.Spells field text token) :
    Accepts form a t :=
  fun field text token _ _ _ htakes => absurd htakes.spells (h field text token)

/-! ## The end of a scan for typing -/

/-- At the end of the text anything may come. -/
theorem replaces_nil (hblank : Text.isBlank c = false) (position : Nat) (r : List Char) :
    Replaces form a position [] (c :: r) := by
  refine ⟨⟨c, r, rfl, hblank⟩, fun _ _ _ => .inl rfl, fun _ f _ hrejected => ?_⟩
  obtain ⟨w, token, r', heq, -, htoken, -⟩ := hrejected.token
  obtain ⟨d, w', rfl, -⟩ := htoken.exists_cons
  cases heq

theorem accepts_stop_startParameter (hpast : Past a w s)
    (hreach : Reaches (parameterStep form .autocomplete) a s) (hstate : s.state = .startParameter)
    (h : ∀ text, Replaces form a s.cursor s.ahead text → Leads form w s text)
    (hnil : s.ahead = []) : Accepts form a s.beginToken := by
  refine accepts_startParameter hpast hreach (.inl hstate) hnil hstate rfl rfl ?_
  intro c r hblank _ u hu
  obtain ⟨u', hu', -, hout⟩ := h (c :: r) (hnil ▸ replaces_nil hblank s.cursor r) u hu
  rw [hstate] at hu'
  exact ⟨u', hu', hout⟩

theorem accepts_stop_parameterSeparator (hpast : Past a w s)
    (hreach : Reaches (parameterStep form .autocomplete) a s)
    (hstate : s.state = .parameterSeparator) (h : Parts form w s) (hnil : s.ahead = []) :
    Accepts form a (s.markToken.goto .startParameter) := by
  refine accepts_startParameter hpast hreach (.inr hstate) hnil rfl rfl rfl ?_
  intro c r hblank _ u hu
  obtain ⟨u', hu', -, hout⟩ := h.free (by simp [hnil]) (c :: r) u hu
  rw [hstate] at hu'
  exact ⟨_, hu'.markToken.goto .startParameter, hout.trans
    (outcome_of_next (step_parameterSeparator_cons hu'.state_eq hu'.ahead_eq hblank))⟩

theorem accepts_stop_separator {equalsSeen : Bool} (hpast : Past a w s)
    (hreach : Reaches (parameterStep form .autocomplete) a s)
    (hfield : form.fields[i]? = some field) (hstate : s.state = .value i (.separator equalsSeen))
    (h : Parts form w s) (hnil : s.ahead = []) : Accepts form a s.markToken := by
  refine accepts_value hpast hfield hstate rfl fun text token htakes hspells u hu => ?_
  obtain ⟨c, r, rfl, hblank⟩ := hspells.exists_cons
  have hequals : c ≠ '=' := by
    rintro rfl
    have hlist : s.markToken.state.isListElement = false := by
      show s.state.isListElement = false
      rw [hstate]
      rfl
    have hsame := htakes.marks hlist '=' rfl (.inr ⟨rfl, s, hreach, rfl, i, equalsSeen, hstate⟩)
    have hend : s.markToken.text[s.markToken.tokenStart]? = none := peek?_of_ahead_nil hnil
    rw [hend] at hsame
    cases hsame
  obtain ⟨u', hu', -, hout⟩ := h.free (by simp [hnil]) (c :: r) u hu
  rw [hstate] at hu'
  exact ⟨_, hu'.markToken.goto (.value i .start), hout.trans (outcome_of_next
    (step_separator_cons hfield hu'.state_eq hu'.ahead_eq hequals hblank))⟩

theorem accepts_stop_elementGap {stage : ListStage} (hpast : Past a w s)
    (hfield : form.fields[i]? = some field) (hstate : s.state = .list i stage)
    (hstage : stage = .start ∨ stage = .next) (h : Parts form w s) (hnil : s.ahead = []) :
    Accepts form a s.beginToken := by
  obtain ⟨afterComma, hlist⟩ : ∃ afterComma, ∀ mode s,
      listStep mode field i stage s = elementStep mode i afterComma s := by
    rcases hstage with rfl | rfl
    · exact ⟨false, fun _ _ => rfl⟩
    · exact ⟨true, fun _ _ => rfl⟩
  have hseparator : stage ≠ .separator := by
    rcases hstage with rfl | rfl
    · exact ListStage.noConfusion
    · exact ListStage.noConfusion
  refine accepts_element hpast hfield hstate hseparator rfl ?_
  intro c text hblank hclose hcomma u hu
  obtain ⟨u', hu', -, hout⟩ := h.free (by simp [hnil]) (c :: text) u hu
  rw [hstate] at hu'
  refine ⟨_, hu'.goto (.list i .elementStart), hout.trans (outcome_of_next ?_)⟩
  rw [parameterStep_list hfield hu'.state_eq, hlist]
  exact elementStep_cons hu'.ahead_eq hblank hclose fun _ => hcomma

/-- The scan stops in a state of the token that was read since `v`. -/
structure StopsIn (v : Scan) (state : ScanState) (token : List Char) (t : Scan) : Prop where
  state_eq : t.state = state
  token_eq : t.token = String.ofList token
  text_eq : t.text = v.text
  tokenStart_eq : t.tokenStart = v.cursor
  positionals_eq : t.positionals = v.positionals
  values_eq : t.values = v.values

theorem stopsIn_behindToken (v : Scan) (state : ScanState) (text token : List Char) :
    StopsIn v state token (v.behindToken state text token) :=
  ⟨rfl, rfl, rfl, rfl, rfl, rfl⟩

/-- A backslash at the very end is not in the token. -/
theorem CutsQuotation.stopsIn {q : Quote} {state : ScanState}
    (h : CutsQuotation q (v.behindToken state text token) t) : StopsIn v state token t := by
  cases h with
  | nil => exact stopsIn_behindToken v state text token
  | backslash => exact ⟨rfl, rfl, rfl, rfl, rfl, rfl⟩

/-- Inside and behind a token a scan stops at the end of the text, or in front of a backslash there. -/
theorem stopsIn_value {stage : ValueStage} (hpart : TokenPart field r stage text token)
    (hahead : v.ahead = text ++ r)
    (hstops : Stops form .autocomplete (v.behindToken (.value i stage) text token) t) :
    StopsIn v (.value i stage) token t ∧ (r = [] ∨ stage = .quoted .double ∧ r = ['\\']) := by
  have hbehind := ahead_behindToken hahead (.value i stage) token
  cases hstops with
  | quotedValue _ hstate hcut =>
    cases hstate
    refine ⟨hcut.stopsIn, ?_⟩
    cases hcut with
    | nil hnil => exact .inl (hbehind.symm.trans hnil)
    | backslash hq hslash => exact .inr ⟨by rw [hq], hbehind.symm.trans hslash⟩
  | endBare _ hstate hnil | endQuoted _ hstate hnil =>
    exact ⟨stopsIn_behindToken .., .inl (hbehind.symm.trans hnil)⟩
  | separator _ hstate =>
    cases hstate
    cases hpart
  | startParameter hstate | parameterSeparator hstate | flagName hstate | element _ hstate
  | bareElement _ hstate | quotedElement _ hstate | elementSeparator _ hstate | listEnd hstate
  | rest _ hstate => cases hstate

/-- Inside an element a scan stops at the end of the text. -/
theorem stopsIn_list {stage : ListStage} (hpart : ElementPart r stage text token)
    (hstops : Stops form .autocomplete (v.behindToken (.list i stage) text token) t) :
    StopsIn v (.list i stage) token t := by
  cases hstops with
  | bareElement => exact stopsIn_behindToken ..
  | quotedElement _ _ hcut => exact hcut.stopsIn
  | element _ hstate hstage =>
    cases hstate
    rcases hstage with rfl | rfl
    · cases hpart
    · cases hpart
  | elementSeparator _ hstate =>
    cases hstate
    cases hpart
  | startParameter hstate | parameterSeparator hstate | flagName hstate | separator _ hstate
  | quotedValue _ hstate | endBare _ hstate | endQuoted _ hstate | listEnd hstate
  | rest _ hstate => cases hstate

/-- Inside and behind a token, which is replaced as a whole. -/
theorem accepts_stop_token {stage : ValueStage} (hform : form.defect? = none) (hpast : Past a w v)
    (hfield : form.fields[i]? = some field) (hstate : v.state = .value i .start)
    (h : ∀ text, Replaces form a v.cursor v.ahead text → Leads form w v text)
    (hpart : TokenPart field r stage text token) (hahead : v.ahead = text ++ r)
    (hend : Stops form .autocomplete (v.behindToken (.value i stage) text token) t) :
    Accepts form a t := by
  obtain ⟨hstops, hr⟩ := stopsIn_value hpart hahead hend
  refine accepts_value hpast hfield hstops.state_eq hstops.tokenStart_eq
    fun text' token' htakes hspells u hu => ?_
  have hlist : t.state.isListElement = false := by
    rw [hstops.state_eq]
    rfl
  have hreplaces : Replaces form a v.cursor v.ahead text' := by
    refine ⟨hspells.exists_cons, fun c hc hmark => .inr ?_, fun hpasses f hf hrejected => ?_⟩
    · have hsame := htakes.marks hlist c hc (hstops.tokenStart_eq.symm ▸ hmark)
      rw [hstops.text_eq, hstops.tokenStart_eq] at hsame
      rw [← hsame]
      exact (peek?_eq_head? v).symm
    · rw [hahead] at hrejected
      have hnot := hrejected.of_tokenPart hpart hr
      refine ⟨hrejected.bool, text', token', [], (List.append_nil _).symm, startsBlank_nil,
        hspells.of_single (Form.multiselect_of_bool hform hf hrejected.bool), ?_⟩
      refine Bool.of_not_eq_true fun htrue => ?_
      have haccepts := htakes.truth (hstops.tokenStart_eq.symm ▸ hpasses)
        (by simpa [acceptsBool] using htrue)
      rw [hstops.token_eq, hnot] at haccepts
      cases haccepts
  obtain ⟨u', hu', -, hout⟩ := h text' hreplaces u hu
  rw [hstate, ← hstops.positionals_eq, ← hstops.values_eq] at hu'
  exact ⟨u', hu', hout⟩

theorem accepts_stop_element {stage : ListStage} (hpast : Past a w v)
    (hfield : form.fields[i]? = some field) (hstate : v.state = .list i .elementStart)
    (h : ∀ c text, Text.isBlank c = false → c ≠ ']' → c ≠ ',' → Leads form w v (c :: text))
    (hpart : ElementPart r stage text token)
    (hend : Stops form .autocomplete (v.behindToken (.list i stage) text token) t) :
    Accepts form a t := by
  have hstops := stopsIn_list hpart hend
  have hseparator : stage ≠ .separator := by
    cases hpart with
    | bare | quoted | ended => exact nofun
  refine accepts_element hpast hfield hstops.state_eq hseparator hstops.tokenStart_eq
    fun c text hblank hclose hcomma u hu => ?_
  obtain ⟨u', hu', -, hout⟩ := h c text hblank hclose hcomma u hu
  rw [hstate, ← hstops.positionals_eq, ← hstops.values_eq] at hu'
  exact ⟨u', hu', hout⟩

/-- Where a scan for typing stops, whatever is accepted in the place of the last token is what the
command is executed with. -/
theorem Traced.stop (hform : form.defect? = none) (hs : Reading form s.text s)
    (hreach : Reaches (parameterStep form .autocomplete) a s) (h : Traced form a s)
    (hstops : Stops form .autocomplete s t) : Accepts form a t := by
  cases h with
  | front hpast hfront _ h =>
    cases hstops with
    | startParameter hstate hnil => exact accepts_stop_startParameter hpast hreach hstate h hnil
    | _ => simp_all [isFront]
  | between hpast hbetween _ h =>
    cases hstops with
    | parameterSeparator hstate hnil =>
      exact accepts_stop_parameterSeparator hpast hreach hstate h hnil
    | separator hfield hstate hnil => exact accepts_stop_separator hpast hreach hfield hstate h hnil
    | element hfield hstate hstage hnil =>
      exact accepts_stop_elementGap hpast hfield hstate hstage h hnil
    | listEnd hstate =>
      exact accepts_of_not_spells fun _ _ _ => by simp [Spells, beginToken, hstate]
    | _ => simp_all [isBetween]
  | flag _ hflag _ =>
    cases hstops with
    | flagName hstate => exact accepts_of_not_spells fun _ _ _ => by simp [Spells, hstate]
    | _ => simp_all
  | token hpast _ hfield hstate h hpart hahead =>
    exact accepts_stop_token hform hpast hfield hstate h hpart hahead hstops
  | elementFront _ hstate => exact absurd hstate hstops.not_element.1
  | @element _ _ _ _ _ i _ hpast hstate h hpart _ =>
    obtain ⟨field, -, hfield⟩ := hs.field (i := i) rfl
    exact accepts_stop_element hpast hfield hstate h hpart hstops
  | elementSeparator _ hstate =>
    cases hstops with
    | elementSeparator =>
      exact accepts_of_not_spells fun _ _ _ => by simp [Spells, beginToken, hstate]
    | _ => simp_all
  | rest hstate =>
    cases hstops with
    | rest => exact accepts_of_not_spells fun _ _ _ => by simp [Spells, assign, hstate]
    | _ => simp_all

/-! ## The last token itself -/

/-- The token between the marks that it is typed in. -/
def echoed (s : Scan) : List Char :=
  match s.state.quote? with
  | some q => q.char :: (s.token.toList ++ [q.char])
  | none => s.token.toList

theorem echoed_ne_nil (h : s.token ≠ "") : s.echoed ≠ [] := by
  unfold echoed
  split
  · exact List.cons_ne_nil _ _
  · exact fun hnil => h (String.toList_eq_nil_iff.mp hnil)

/-- The token that is typed is accepted in its place, unless something in it had to be escaped. -/
def Echoes (form : Form) (a t : Scan) : Prop :=
  ∀ field, t.form = some form → t.awaitedField? = some field → t.token ≠ "" →
    (∀ i, t.state ≠ .rest i) →
    (t.state.quote? = some .double → ∀ c ∈ t.token.toList, c ≠ '"' ∧ c ≠ '\\') →
    Takes form a t field t.echoed t.token.toList

theorem echoes_of_empty (h : t.token = "") : Echoes form a t :=
  fun _ _ _ hne => absurd h hne

theorem echoes_of_no_field (h : t.awaitedField? = none) : Echoes form a t := by
  intro field _ hfield
  rw [h] at hfield
  cases hfield

/-- A truth value that is typed is one. -/
theorem acceptsBool_of_truth {token : String} (h : token = "true" ∨ token = "false") :
    acceptsBool .autocomplete token = true :=
  acceptsBool_autocomplete (acceptsBool_of_or h)

/-- What is between quotation marks can be put between them again, unless it had to be escaped. -/
theorem quotedText_again {q : Quote} {body : List Char} (h : QuotedText q body token)
    (hclean : q = .double → ∀ c ∈ token, c ≠ '"' ∧ c ≠ '\\') : QuotedText q token token := by
  refine quotedText_self fun c hc => ?_
  cases q with
  | double =>
    obtain ⟨hquote, hslash⟩ := hclean rfl c hc
    exact ⟨hquote, fun hescape => hslash hescape.1⟩
  | tick => exact ⟨h.eq_of_tick.2 c hc, fun hescape => nomatch hescape.2⟩

theorem not_isMark_quote (q : Quote) {position : Nat} : ¬ IsMark form a position q.char := by
  rintro (⟨h, -⟩ | ⟨h, -⟩)
  · cases q with
    | double => exact absurd h (by decide)
    | tick => exact absurd h (by decide)
  · cases q with
    | double => exact absurd h (by decide)
    | tick => exact absurd h (by decide)

/-- A truth value is what it is, in marks or without. -/
theorem takes_echoed (hspells : s.Spells field s.echoed s.token.toList)
    (hmarks : s.state.isListElement = false → ∀ c ∈ s.echoed.head?, IsMark form a s.tokenStart c →
      s.text[s.tokenStart]? = some c) : Takes form a s field s.echoed s.token.toList := by
  refine ⟨hspells, hmarks, fun _ htruth => ?_⟩
  rw [String.ofList_toList] at htruth
  exact acceptsBool_of_truth htruth

namespace StopsIn

variable {state : ScanState} {q : Quote} {body : List Char}

theorem toList_token (h : StopsIn v state token t) : t.token.toList = token := by
  rw [h.token_eq, String.toList_ofList]

theorem token_ne_nil (h : StopsIn v state token t) (hne : t.token ≠ "") : token ≠ [] := by
  rintro rfl
  exact hne h.token_eq

theorem echoed_of_bare (h : StopsIn v state token t) (hquote : state.quote? = none) :
    t.echoed = token := by
  rw [echoed, h.state_eq, hquote, h.toList_token]

theorem echoed_of_quote (h : StopsIn v state token t) (hquote : state.quote? = some q) :
    t.echoed = q.char :: (token ++ [q.char]) := by
  rw [echoed, h.state_eq, hquote, h.toList_token]

/-- A token between quotation marks is a quotation again, unless it had to be escaped. -/
theorem quotation (h : StopsIn v state token t) (hquote : state.quote? = some q)
    (hquoted : QuotedText q body token) (hne : token ≠ [])
    (hclean : t.state.quote? = some .double → ∀ c ∈ t.token.toList, c ≠ '"' ∧ c ≠ '\\') :
    Quotation t.echoed token := by
  rw [h.echoed_of_quote hquote]
  refine .mk hne (quotedText_again hquoted fun hq => ?_)
  rw [← h.toList_token]
  exact hclean (by rw [h.state_eq, hquote, hq])

end StopsIn

theorem echoes_stop_token {stage : ValueStage} (hfield : form.fields[i]? = some field)
    (hpart : TokenPart field r stage text token) (hahead : v.ahead = text ++ r)
    (hend : Stops form .autocomplete (v.behindToken (.value i stage) text token) t) : Echoes form a t := by
  obtain ⟨hstops, -⟩ := stopsIn_value hpart hahead hend
  intro field' hform hfield' hne _ hclean
  have hne' := hstops.token_ne_nil hne
  obtain rfl : field' = field := by
    rw [awaitedField?_of_value hform hstops.state_eq, hfield] at hfield'
    exact (Option.some.inj hfield').symm
  have hspells (h : TokenText field' t.echoed token) :
      t.Spells field' t.echoed t.token.toList := by
    rwa [Spells, hstops.state_eq, hstops.toList_token]
  have hquoted {q : Quote} {body : List Char} (hquote : (ScanState.value i stage).quote? = some q)
      (hbody : QuotedText q body token) : Takes form a t field' t.echoed t.token.toList := by
    refine takes_echoed (hspells (.quoted (hstops.quotation hquote hbody hne' hclean)))
      fun _ c hc hmark => ?_
    rw [hstops.echoed_of_quote hquote] at hc
    obtain rfl := Option.some.inj hc
    exact absurd hmark (not_isMark_quote q)
  cases hpart with
  | bare => exact absurd rfl hend.not_bare
  | endBare hw hc _ =>
    have hechoed := hstops.echoed_of_bare rfl
    obtain ⟨c, w, rfl⟩ := List.exists_cons_of_ne_nil hne'
    refine takes_echoed (hspells ?_) fun _ d hd _ => ?_
    · rw [hechoed]
      exact .bare (hc c rfl) fun d hd => hw d (List.mem_cons_of_mem c hd)
    · rw [hechoed] at hd
      obtain rfl := Option.some.inj hd
      rw [hstops.text_eq, hstops.tokenStart_eq]
      exact peek?_of_ahead hahead
  | quoted hbody => exact hquoted rfl hbody
  | endQuoted _ hbody => exact hquoted rfl hbody

theorem echoes_stop_element {stage : ListStage} (hpart : ElementPart r stage text token)
    (hend : Stops form .autocomplete (v.behindToken (.list i stage) text token) t) : Echoes form a t := by
  have hstops := stopsIn_list hpart hend
  intro field _ _ hne _ hclean
  have hne' := hstops.token_ne_nil hne
  have hechoed : ElementText t.echoed token := by
    cases hpart with
    | bare hw _ =>
      rw [hstops.echoed_of_bare rfl]
      exact .bare hne' hw
    | quoted hbody => exact .quoted (hstops.quotation rfl hbody hne' hclean)
    | ended => exact absurd rfl hend.not_element.2
  refine takes_echoed ?_ fun houtside => ?_
  · rw [Spells, hstops.state_eq, hstops.toList_token]
    cases hpart with
    | bare | quoted | ended => exact hechoed
  · rw [hstops.state_eq] at houtside
    cases houtside

/-- Where a scan for typing stops, the token that is typed is accepted in its own place. -/
theorem Traced.echoes (h : Traced form a s) (hstops : Stops form .autocomplete s t) : Echoes form a t := by
  cases h with
  | front _ hfront _ _ =>
    cases hstops with
    | startParameter => exact echoes_of_empty rfl
    | _ => simp_all [isFront]
  | between _ hbetween htoken _ =>
    cases hstops with
    | parameterSeparator | separator => exact echoes_of_empty htoken
    | element | listEnd => exact echoes_of_empty rfl
    | _ => simp_all [isBetween]
  | flag _ hflag _ =>
    cases hstops with
    | flagName hstate =>
      exact echoes_of_no_field (by simp [awaitedField?, currentField?, hstate, ScanState.field?])
    | _ => simp_all
  | token _ _ hfield _ _ hpart hahead => exact echoes_stop_token hfield hpart hahead hstops
  | element _ _ _ hpart _ => exact echoes_stop_element hpart hstops
  | elementFront _ hstate => exact absurd hstate hstops.not_element.1
  | elementSeparator _ hstate =>
    cases hstops with
    | elementSeparator => exact echoes_of_empty rfl
    | _ => simp_all
  | @rest _ i hstate _ =>
    cases hstops with
    | rest => exact fun _ _ _ _ hrest => absurd hstate (hrest i)
    | _ => simp_all

/-- The rest of the line is the last token, and what its field has. -/
def GivesRest (form : Form) (t : Scan) : Prop :=
  ∀ i field, t.state = .rest i → form.fields[i]? = some field →
    t.token.toList = t.text.drop t.tokenStart ∧
      t.values[field.name]? = some (.ofToken field.multiselect t.token)

theorem Traced.tokenStart_of_rest (h : Traced form a s) (hrest : s.state = .rest i) :
    s.tokenStart = s.cursor := by
  cases h with
  | rest _ hstart => exact hstart
  | front _ hstate | between _ hstate =>
    rw [hrest] at hstate
    cases hstate
  | flag _ hstate =>
    rw [hrest] at hstate
    rcases hstate with hstate | hstate
    · cases hstate
    · cases hstate
  | token | element => cases hrest
  | elementFront _ hstate | elementSeparator _ hstate =>
    rw [hrest] at hstate
    cases hstate

theorem Traced.givesRest (h : Traced form a s) (hstops : Stops form .autocomplete s t) : GivesRest form t := by
  intro i field hrest hfield
  have hstate : s.state = .rest i := by
    rcases hstops.state_eq with hsame | ⟨-, hstart⟩
    · exact hsame.symm.trans hrest
    · rw [hstart] at hrest
      cases hrest
  cases hstops with
  | rest hfield' hstate' =>
    obtain rfl := ScanState.rest.inj (hstate'.symm.trans hstate)
    obtain rfl := Option.some.inj (hfield'.symm.trans hfield)
    refine ⟨?_, Std.ExtTreeMap.getElem?_insert_self⟩
    show (String.ofList (s.text.drop s.cursor)).toList = s.text.drop s.tokenStart
    rw [String.toList_ofList, h.tokenStart_of_rest hstate]
  | _ => simp_all

/-! ## Whole runs -/

/-- What is known of the scan for typing at its end. -/
structure LastToken (form : Form) (a t : Scan) : Prop where
  text : t.text = a.text
  /-- Whatever is accepted in the place of the last token, the command is executed with it. -/
  accepts : Accepts form a t
  /-- The token that is typed is accepted in its own place. -/
  echoes : Echoes form a t
  /-- The rest of the line is what its field has. -/
  rest : GivesRest form t

/-- **The last token.**  This is so where a form without defects is read for typing, without cutting
a truth value short. -/
theorem lastToken_readForm (hform : form.defect? = none) (ha : Stands .startParameter 0 ∅ text a)
    (hstart : a.tokenStart = a.cursor) (hs : Reading form a.text a) (hspelled : SpellsBools form a)
    (hfailed : (readForm form .autocomplete a).isFailed = false) :
    LastToken form a (readForm form .autocomplete a) := by
  have hbegin : Traced form a a :=
    .start ha.state_eq ha.positionals_eq ha.values_eq hstart
  suffices h : (readForm form .autocomplete a).isFailed = false →
      LastToken form a (readForm form .autocomplete a) from h hfailed
  refine run_invariant (fun s => Traced form a s ∧ Reading form a.text s ∧
      Reaches (parameterStep form .autocomplete) a s)
    (fun t => t.isFailed = false → LastToken form a t) ?_ ?_ ?_ ⟨hbegin, hs, .refl⟩
  · rintro s t ⟨htraced, hreading, hreach⟩ hstep
    exact ⟨htraced.next hform (hreading.text_eq ▸ hreading) hreach (hspelled s hreach) hstep,
      hreading.next hstep, .next hreach hstep⟩
  · rintro s t ⟨htraced, hreading, hreach⟩ hstep _
    have hstops := hreading.stops hstep
    exact ⟨(hreading.stop hstep).text_eq,
      htraced.stop hform (hreading.text_eq ▸ hreading) hreach hstops, htraced.echoes hstops,
      htraced.givesRest hstops⟩
  · rintro s t e - - hnot
    cases hnot

end Scan

end SlashCommand
