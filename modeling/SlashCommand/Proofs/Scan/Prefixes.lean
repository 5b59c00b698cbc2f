import SlashCommand.Proofs.Scan.Endings
import SlashCommand.Proofs.Scan.Transplant

/-!
# Errors that stay

While a command is typed, an error does not go away by typing on: if a text is read without an
error, so is every prefix of it that has come to its leaf (`isFailed_parseForm_of_isPrefix`).

The scan of a prefix makes the same steps as the scan of the text up to the end of the prefix
(`parameterStep_onText`).  There it stops, with one exception: a token that is no truth value is
taken back, and read as the next parameter, although it might go on.  What it goes on to is no truth
value either, and the scan of the text takes it back as well, to the same place
(`readForm_of_rejects`).
-/

namespace SlashCommand

namespace Scan

/-- The scan with another text. -/
def onText (s : Scan) (text : List Char) : Scan := { s with text }

/-- The step with another text. -/
def Step.onText (text : List Char) : Step → Step
  | next s => .next (s.onText text)
  | stop s => .stop (s.onText text)
  | fail s e => .fail (s.onText text) e

variable {form : Form} {s : Scan} {text : List Char} {field : Field} {i : Nat} {c : Char}

/-! ## Steps before the end of the prefix -/

/-- A scan with another text is the scan transplanted there, with no character in front of it. -/
theorem transplanted_zero (s : Scan) (text : List Char) :
    s.transplanted text 0 = s.onText text := by
  have hmoved : s.state.moved 0 = s.state := by
    cases s.state with
    | failed e => exact congrArg ScanState.failed (by rw [Nat.zero_add])
    | _ => rfl
  rw [transplanted, hmoved, Nat.zero_add, Nat.zero_add, onText]

theorem Step.map_transplanted_zero (step : Step) (text : List Char) :
    step.map (transplanted text 0) = step.onText text := by
  cases step with
  | next s => exact congrArg Step.next (transplanted_zero s text)
  | stop s => exact congrArg Step.stop (transplanted_zero s text)
  | fail s e => exact congrArg (Step.fail · e) (transplanted_zero s text)

/-- Behind a backslash between double quotes a prefix stops where it ends. -/
theorem exists_stop_of_backslash (hquote : inDoubleQuotes s.state = true)
    (hahead : s.ahead = ['\\']) : ∃ t, parameterStep form .autocomplete s = .stop t := by
  unfold inDoubleQuotes at hquote
  split at hquote
  · rename_i i hstate
    rw [parameterStep, hstate]
    dsimp only
    split
    · exact ⟨_, quotedStep_escape_nil rfl hahead⟩
    · exact ⟨s, rfl⟩
  · rename_i i hstate
    rw [parameterStep, hstate]
    dsimp only
    split
    · exact ⟨_, quotedStep_escape_nil rfl hahead⟩
    · exact ⟨s, rfl⟩
  · cases hquote

/-- What a step sees of the prefix stands in the text, unless the scan of the prefix stops. -/
theorem seenIn_of_isPrefix (htext : s.text <+: text) (h : s.peek? = some c)
    (hstop : ∀ t, parameterStep form .autocomplete s ≠ .stop t) : SeenIn text 0 s := by
  have hsame {j : Nat} (hj : j < s.text.length) : text[0 + j]? = s.text[j]? :=
    getElem?_of_isPrefix (List.prefix_refl _) htext hj
  refine ⟨hsame (cursor_lt_of_peek? h), fun hquote hslash => ?_, fun i hstate => ?_⟩
  · obtain ⟨r, hahead⟩ := ahead_of_peek? hslash
    cases r with
    | nil =>
      obtain ⟨t, ht⟩ := exists_stop_of_backslash hquote hahead
      exact absurd ht (hstop t)
    | cons d r =>
      have hnext : s.advance.peek? = some d := peek?_of_ahead (ahead_advance hahead)
      exact hsame (cursor_lt_of_peek? (s := s.advance) hnext)
  · obtain ⟨t, ht⟩ := exists_stop_of_rest hstate
    exact absurd ht (hstop t)

/-- Before the end of the prefix the scan of the text makes the same step, unless the scan of the
prefix stops there. -/
theorem parameterStep_onText (htext : s.text <+: text) (h : s.peek? = some c)
    (hstop : ∀ t, parameterStep form .autocomplete s ≠ .stop t) :
    parameterStep form .autocomplete (s.onText text) =
      (parameterStep form .autocomplete s).onText text := by
  rw [← transplanted_zero, ← Step.map_transplanted_zero]
  exact parameterStep_transplanted (seenIn_of_isPrefix htext h hstop)

/-! ## Tokens that are taken back -/

/-- The scan stands in or behind a value of a boolean field that is not a truth value, whatever it
goes on to. -/
structure Rejects (form : Form) (field : Field) (i : Nat) (s : Scan) : Prop where
  lookup : form.fields[i]? = some field
  bool : field.type = .bool
  token : acceptsBool .autocomplete s.token = false

theorem hasPrefix_of_append {token more s : String} (h : Text.hasPrefix (token ++ more) s = true) :
    Text.hasPrefix token s = true := by
  rw [Text.hasPrefix, List.isPrefixOf_iff_prefix] at h ⊢
  rw [String.toList_append] at h
  exact (List.prefix_append _ _).trans h

/-- What is no beginning of a truth value does not go on to one. -/
theorem acceptsBool_append {token more : String} (h : acceptsBool .autocomplete token = false) :
    acceptsBool .autocomplete (token ++ more) = false := by
  obtain ⟨htrue, hfalse⟩ := Bool.or_eq_false_iff.mp h
  refine Bool.or_eq_false_iff.mpr ⟨?_, ?_⟩
  · exact Bool.eq_false_iff.mpr fun hmore =>
      Bool.false_ne_true (htrue.symm.trans (hasPrefix_of_append hmore))
  · exact Bool.eq_false_iff.mpr fun hmore =>
      Bool.false_ne_true (hfalse.symm.trans (hasPrefix_of_append hmore))

/-- A token that is rejected is taken back, unless something stands right behind its closing
mark. -/
theorem valueEndStep_of_rejects (h : Rejects form field i s) (quoted : Bool) :
    (quoted = true ∧ ∃ c, s.peek? = some c ∧
      valueEndStep .autocomplete field quoted s = .fail s (.unexpectedCharacter c)) ∨
      valueEndStep .autocomplete field quoted s = .next (s.rescan field) := by
  unfold valueEndStep
  split
  · rename_i c hc
    obtain ⟨hpeek, hquoted⟩ := Option.filter_eq_some_iff.mp hc
    exact .inl ⟨(Bool.and_eq_true_iff.mp hquoted).1, c, hpeek, rfl⟩
  · right
    rw [if_pos ⟨h.bool, by rw [h.token]; rfl⟩]

/-- A bare token that is rejected is taken back when it is complete. -/
theorem readForm_of_rejects (h : Rejects form field i s)
    (hstate : s.state = .value i .bare ∨ s.state = .value i .endBare) :
    readForm form .autocomplete s = readForm form .autocomplete (s.rescan field) := by
  have hend {t : Scan} (ht : Rejects form field i t) (hstate : t.state = .value i .endBare) :
      readForm form .autocomplete t = readForm form .autocomplete (t.rescan field) := by
    refine readForm_of_next ?_
    rw [parameterStep_value ht.lookup hstate]
    exact (valueEndStep_of_rejects ht false).resolve_left fun hfail => Bool.false_ne_true hfail.1
  rcases hstate with hstate | hstate
  · obtain ⟨w, r, hahead, hword, hblank⟩ := exists_word s.ahead
    have hpushed : Rejects form field i ((s.pushAll w).goto (.value i .endBare)) :=
      ⟨h.lookup, h.bool, acceptsBool_append h.token⟩
    rw [readForm_bare h.lookup hword hblank hstate hahead, hend hpushed rfl]
    rfl
  · exact hend h hstate

/-- A quoted token that is rejected is taken back, or something stands right behind it and is an
error. -/
theorem readForm_of_rejects_quoted {q : Quote} (h : Rejects form field i s)
    (hstate : s.state = .value i (.endQuoted q)) :
    (readForm form .autocomplete s).isFailed = true ∨
      readForm form .autocomplete s = readForm form .autocomplete (s.rescan field) := by
  have hstep : parameterStep form .autocomplete s =
      valueStep .autocomplete field i (.endQuoted q) s := parameterStep_value h.lookup hstate
  rcases valueEndStep_of_rejects h true with ⟨-, c, -, hfail⟩ | hnext
  · rw [readForm_of_fail (hstep.trans hfail)]
    exact .inl rfl
  · exact .inr (readForm_of_next (hstep.trans hnext))

/-! ## At the end of the prefix -/

/-- A run that stops has not failed. -/
theorem isFailed_of_stop {t : Scan} (h : Reading form text s)
    (hstop : parameterStep form .autocomplete s = .stop t) :
    (readForm form .autocomplete s).isFailed = false := by
  rw [readForm_of_stop hstop]
  exact (h.stop hstop).notFailed

/-- The stages of a value whose token may be rejected at the end of the text. -/
def mayReject : ValueStage → Bool
  | .bare => true
  | .endBare => true
  | .endQuoted _ => true
  | _ => false

/-- Nothing is ahead, and no token is to be rejected. -/
structure Settled (form : Form) (s : Scan) : Prop where
  ahead : s.ahead = []
  accepts : ∀ i stage field, s.state = .value i stage → mayReject stage = true →
    ¬ Rejects form field i s

/-- The scan goes on as it is, or stops. -/
def SettlesBy (form : Form) : Step → Prop
  | .next t => Settled form t
  | .stop _ => True
  | .fail _ _ => False

theorem settled_of_state (h : s.ahead = [])
    (hstate : ∀ i stage, s.state = .value i stage → mayReject stage = false) : Settled form s := by
  refine ⟨h, fun i stage field hvalue hreject => ?_⟩
  rw [hstate i stage hvalue] at hreject
  cases hreject

/-- What a step for typing does at the end of the text, where no token is rejected.  It stops, or it
passes to the end of what is being read. -/
inductive WindsUp (form : Form) (s : Scan) : Step → Prop
  | stop (t : Scan) : WindsUp form s (.stop t)
  | flagDash : s.state = .flagDash → WindsUp form s (.next (s.beginToken.goto .flagName))
  | start {i : Nat} : s.state = .value i .start →
      WindsUp form s (.next (s.beginToken.goto (.value i .bare)))
  | bare {i : Nat} : s.state = .value i .bare → WindsUp form s (.next (s.goto (.value i .endBare)))
  | elementStart {i : Nat} : s.state = .list i .elementStart →
      WindsUp form s (.next (s.beginToken.goto (.list i .bare)))
  | elementEnd {i : Nat} (values : Values) : s.state = .list i .elementEnd →
      WindsUp form s (.next { s with values := values, token := "", state := .list i .separator })

theorem Moves.windsUp {t : Scan} (hmove : Moves form .autocomplete s t) (h : Settled form s) :
    WindsUp form s (.next t) := by
  have hnil := h.ahead
  cases hmove with
  | singleDash hstate => exact .flagDash hstate
  | value hfield hstate hvalue =>
    cases hvalue with
    | startEnd => exact .start hstate
    | complete => exact .bare hstate
    | separatorEnd hmode => cases hmode
    | quoted hquoted => exact absurd hnil hquoted.ahead_ne_nil
    | endBare hend | endQuoted hend =>
      cases hend with
      | rescan _ hbool hnot => exact absurd ⟨hfield, hbool, hnot⟩ (h.accepts _ _ _ hstate rfl)
      | close hahead =>
        rw [hnil] at hahead
        cases hahead
    | equals hahead | gap hahead | begin hahead | quote hahead | bracket hahead | bare hahead
    | push hahead =>
      rw [hnil] at hahead
      cases hahead
  | list _ hstate hlist =>
    cases hlist with
    | startEnd => exact .elementStart hstate
    | append => exact .elementEnd _ hstate
    | quoted hquoted => exact absurd hnil hquoted.ahead_ne_nil
    | gap _ hahead | close _ hahead | begin _ hahead | quote hahead | bare hahead | push hahead
    | complete hahead | comma hahead =>
      rw [hnil] at hahead
      cases hahead
  | flag _ hend =>
    rcases hend with ⟨-, hmode⟩ | ⟨c, r, hahead, -⟩
    · cases hmode
    · rw [hnil] at hahead
      cases hahead
  | dash _ hahead | positional _ hahead | rest _ hahead | gap _ hahead | begin _ hahead
  | secondDash _ hahead | name _ hahead | listEnd _ hahead =>
    rw [hnil] at hahead
    cases hahead

/-- At the end of the text a run for typing only winds up, unless a token is rejected. -/
theorem Settled.windsUp (h : Settled form s) :
    WindsUp form s (Scan.parameterStep form .autocomplete s) := by
  cases hstep : Scan.parameterStep form .autocomplete s with
  | next t => exact (moves_of_parameterStep hstep).windsUp h
  | stop t => exact .stop t
  | fail t e => exact absurd h.ahead (fails_of_parameterStep hstep).ahead_ne_nil

/-- Where a run winds up, there is still nothing to reject. -/
theorem WindsUp.settlesBy {step : Step} (hstep : WindsUp form s step) (h : Settled form s) :
    SettlesBy form step := by
  cases hstep with
  | stop => trivial
  | flagDash | elementStart | elementEnd => exact settled_of_state h.ahead nofun
  | start =>
    -- an empty token is the beginning of any truth value
    refine ⟨h.ahead, fun j stage f _ _ hrejects => ?_⟩
    have htoken := hrejects.token
    cases htoken
  | bare hstate =>
    refine ⟨h.ahead, fun j stage f hj _ hrejects => ?_⟩
    cases hj
    exact h.accepts _ _ f hstate rfl ⟨hrejects.lookup, hrejects.bool, hrejects.token⟩

/-- At the end of the text a run for typing goes on only to stop, unless a token is rejected. -/
theorem Settled.parameterStep (h : Settled form s) :
    SettlesBy form (Scan.parameterStep form .autocomplete s) :=
  h.windsUp.settlesBy h

/-- At the end of the text a run for typing does not fail, unless a token is rejected. -/
theorem Settled.isFailed_readForm (h : Settled form s) (hs : Reading form text s) :
    (readForm form .autocomplete s).isFailed = false := by
  refine run_invariant (fun u => Settled form u ∧ Reading form text u)
    (fun t => t.isFailed = false) ?_ ?_ ?_ ⟨h, hs⟩
  · rintro u v ⟨hsettled, hu⟩ hstep
    have hv := hsettled.parameterStep
    rw [hstep] at hv
    exact ⟨hv, hu.next hstep⟩
  · rintro u v ⟨-, hu⟩ hstop
    have hfailed := isFailed_of_stop hu hstop
    rwa [readForm_of_stop hstop] at hfailed
  · rintro u v e ⟨hsettled, hu⟩ hfail
    have hv := hsettled.parameterStep
    rw [hfail] at hv
    exact hv.elim

/-- If the run for typing fails from the end of the text, then a token is rejected there. -/
theorem exists_rejects (hs : Reading form text s) (hahead : s.ahead = [])
    (hfailed : (readForm form .autocomplete s).isFailed = true) :
    ∃ i stage field, s.state = .value i stage ∧ mayReject stage = true ∧
      Rejects form field i s := by
  refine Classical.byContradiction fun hnot => ?_
  have hsettled : Settled form s :=
    ⟨hahead, fun i stage field hstate hstage hrejects =>
      hnot ⟨i, stage, field, hstate, hstage, hrejects⟩⟩
  rw [hsettled.isFailed_readForm hs] at hfailed
  cases hfailed

/-- What the run for typing does at the end of the text with a token that is rejected. -/
theorem step_of_rejects {stage : ValueStage} (h : Rejects form field i s)
    (hstate : s.state = .value i stage) (hstage : mayReject stage = true) (hahead : s.ahead = []) :
    parameterStep form .autocomplete s =
      .next (if stage = .bare then s.goto (.value i .endBare) else s.rescan field) := by
  have hend (quoted : Bool) :
      valueEndStep .autocomplete field quoted s = .next (s.rescan field) := by
    refine (valueEndStep_of_rejects h quoted).resolve_left ?_
    rintro ⟨-, c, hc, -⟩
    rw [peek?_of_ahead_nil hahead] at hc
    cases hc
  cases stage with
  | separator | start | quoted => cases hstage
  | bare => exact step_bare_end h.lookup hstate (hahead.symm ▸ startsBlank_nil)
  | endBare => exact (parameterStep_value h.lookup hstate).trans (hend false)
  | endQuoted q => exact (parameterStep_value h.lookup hstate).trans (hend true)

/-! ## Along the run -/

/-- If the run for typing fails on a text, it fails on every text that goes on as the text does. -/
theorem isFailed_readForm_onText {typed : List Char} (htext : typed <+: text)
    (hs : Reading form typed s) (hfailed : (readForm form .autocomplete s).isFailed = true) :
    (readForm form .autocomplete (s.onText text)).isFailed = true := by
  induction s using run_induction (@parameterMeasure_lt form .autocomplete) with
  | next s s' hstep ih =>
    have hrun : (readForm form .autocomplete (s'.onText text)).isFailed = true :=
      ih (hs.next hstep) (by rwa [readForm_of_next hstep] at hfailed)
    cases hc : s.peek? with
    | some c =>
      have hgoes : ∀ t, parameterStep form .autocomplete s ≠ .stop t := fun t hstop =>
        Step.noConfusion (hstep.symm.trans hstop)
      have hnext := parameterStep_onText (hs.text_eq ▸ htext) hc hgoes
      rw [hstep] at hnext
      rwa [readForm_of_next hnext]
    | none =>
      -- the token that is taken back at the end of the prefix is taken back later in the text
      obtain ⟨i, stage, field, hstate, hstage, hrejects⟩ :=
        exists_rejects hs (ahead_of_peek?_none hc) hfailed
      have hback := step_of_rejects hrejects hstate hstage (ahead_of_peek?_none hc)
      obtain rfl := Step.next.inj (hstep.symm.trans hback)
      have hmore : Rejects form field i (s.onText text) :=
        ⟨hrejects.lookup, hrejects.bool, hrejects.token⟩
      cases stage with
      | separator | start | quoted => cases hstage
      | bare =>
        have hbehind : Rejects form field i ((s.onText text).goto (.value i .endBare)) :=
          ⟨hrejects.lookup, hrejects.bool, hrejects.token⟩
        rw [readForm_of_rejects hmore (.inl hstate)]
        have hsame := readForm_of_rejects hbehind (.inr rfl)
        exact (congrArg isFailed hsame).symm.trans hrun
      | endBare =>
        rw [readForm_of_rejects hmore (.inr hstate)]
        exact hrun
      | endQuoted q =>
        rcases readForm_of_rejects_quoted hmore hstate with hfail | hsame
        · exact hfail
        · rw [hsame]
          exact hrun
  | stop s s' hstop =>
    rw [isFailed_of_stop hs hstop] at hfailed
    cases hfailed
  | fail s s' e hfail =>
    cases hc : s.peek? with
    | some c =>
      have hgoes : ∀ t, parameterStep form .autocomplete s ≠ .stop t := fun t hstop =>
        Step.noConfusion (hfail.symm.trans hstop)
      have hfail' := parameterStep_onText (hs.text_eq ▸ htext) hc hgoes
      rw [hfail] at hfail'
      rw [readForm_of_fail hfail']
      rfl
    | none =>
      obtain ⟨i, stage, field, hstate, hstage, hrejects⟩ :=
        exists_rejects hs (ahead_of_peek?_none hc) hfailed
      rw [step_of_rejects hrejects hstate hstage (ahead_of_peek?_none hc)] at hfail
      cases hfail

/-! ## The descent -/

/-- A step of the descent is the same for the prefix and for the text, or it is the last one of the
prefix. -/
theorem descentStep_onText (htext : s.text <+: text) :
    descentStep .autocomplete (s.onText text) = (descentStep .autocomplete s).onText text ∨
      s.ahead = [] ∧ ((∃ e, descentStep .autocomplete s = .fail s e) ∨
        s.state = .command ∧ descentStep .autocomplete s = .stop s ∨
        descentStep .autocomplete s = .stop (s.beginToken.goto .command)) := by
  have hstate : (s.onText text).state = s.state := rfl
  cases hc : s.peek? with
  | none =>
    have hahead := ahead_of_peek?_none hc
    unfold descentStep
    rw [hstate, hc]
    split
    · exact .inr ⟨hahead, .inl ⟨_, rfl⟩⟩
    · exact .inr ⟨hahead, .inr (.inl ⟨by assumption, rfl⟩)⟩
    · left
      dsimp only [onText]
      split
      · rfl
      · rfl
    · exact .inr ⟨hahead, .inr (.inr rfl)⟩
    · exact .inl rfl
  | some c =>
    left
    rw [← transplanted_zero, ← Step.map_transplanted_zero]
    refine descentStep_transplanted ?_
    exact getElem?_of_isPrefix (List.prefix_refl _) htext (cursor_lt_of_peek? hc)

/-- Where no binding is left to be found, the descent leaves the token that it is in to the
parameters. -/
theorem descend_command_of_nil (hstate : s.state = .command) (hnone : s.candidates = []) :
    (descend .autocomplete s).rewind = s.rewind := by
  obtain ⟨w, r, hahead, hword, hblank⟩ := exists_word s.ahead
  have hbehind : (s.pushAll w).ahead = r := ahead_pushAll hahead
  have hstate' : (s.pushAll w).state = .command := hstate
  rw [descend_word hstate hahead hword]
  cases r with
  | nil =>
    rw [descend_typing hstate' hbehind]
    rfl
  | cons c r =>
    have hfind : Binding.find? (s.pushAll w).candidates (s.pushAll w).token = none := by
      show Binding.find? s.candidates _ = none
      rw [hnone]
      rfl
    rw [descend_lookup hstate' (.inr ⟨c, r, hbehind, hblank c rfl⟩), descend_none hfind]
    rfl

/-- Where the prefix has come to a leaf, the parameters begin at its end, or they begin at the same
position in the text. -/
theorem descend_onText (h : Descending s) (htext : s.text <+: text) {b : Binding}
    (hb : (descend .autocomplete s).binding = some b) (hleaf : b.isLeaf = true) :
    (descend .autocomplete s).rewind.ahead = [] ∨
      (descend .autocomplete (s.onText text)).rewind =
        (descend .autocomplete s).rewind.onText text := by
  induction s using run_induction (@descentMeasure_lt .autocomplete) with
  | next s s' hstep ih =>
    have hs' : Descending s' := (descentCase_of_eq hstep).descendsBy h
    have hrun : descend .autocomplete s = descend .autocomplete s' := run_of_next hstep
    have hsame : s'.text = s.text := (descentCase_of_eq hstep).sameInput.text
    rcases descentStep_onText htext with hnext | ⟨-, ⟨e, hlast⟩ | ⟨-, hlast⟩ | hlast⟩
    · rw [hstep] at hnext
      have hrun' : descend .autocomplete (s.onText text) = descend .autocomplete (s'.onText text) :=
        run_of_next hnext
      rw [hrun] at hb ⊢
      rw [hrun']
      exact ih hs' (hsame ▸ htext) hb
    all_goals
      rw [hlast] at hstep
      cases hstep
  | stop s s' hstop =>
    have hrun : descend .autocomplete s = s' := run_of_stop hstop
    rw [hrun] at hb ⊢
    rcases descentStep_onText htext with hsame | ⟨hahead, ⟨e, hlast⟩ | ⟨hstate, hlast⟩ | hlast⟩
    · rw [hstop] at hsame
      have hrun' : descend .autocomplete (s.onText text) = s'.onText text := run_of_stop hsame
      rw [hrun']
      exact .inr rfl
    · rw [hlast] at hstop
      cases hstop
    · obtain rfl := Step.stop.inj (hlast.symm.trans hstop)
      have hnone : (s.onText text).candidates = [] :=
        (h.candidates b hb).trans (List.isEmpty_iff.mp hleaf)
      exact .inr (descend_command_of_nil hstate hnone)
    · obtain rfl := Step.stop.inj (hlast.symm.trans hstop)
      exact .inl hahead
  | fail s s' e hfail =>
    obtain ⟨hstate, rfl⟩ := (descentCase_of_eq hfail).descendsBy h
    have hrun : descend .autocomplete s' = s'.fail e := run_of_fail hfail
    rw [hrun, show (s'.fail e).binding = none from h.start hstate] at hb
    cases hb

/-! ## Whole commands -/

variable {bindings : List Binding} {leaf : Binding}

theorem matchBinding_eq_matched (hne : bindings ≠ []) (command : String) (mode : ScanMode) :
    (ofText command).matchBinding bindings mode =
      matched mode (descend mode { ofText command with candidates := bindings }) := by
  rw [matchBinding, if_neg (by exact Bool.false_ne_true), if_neg (by simpa using hne)]
  rfl

/-- Where a prefix of a text is matched to a leaf, the parameters begin at the end of the prefix, or
the text is matched to the same leaf and the parameters begin at the same position. -/
theorem matchBinding_onText {typed text : String} (htext : typed.toList <+: text.toList)
    (hbinding : ((ofText typed).matchBinding bindings .autocomplete).binding = some leaf)
    (hleaf : leaf.isLeaf = true) :
    ((ofText typed).matchBinding bindings .autocomplete).rewind.ahead = [] ∨
      ((ofText text).matchBinding bindings .autocomplete).rewind =
        ((ofText typed).matchBinding bindings .autocomplete).rewind.onText text.toList := by
  have hne : bindings ≠ [] := by
    rintro rfl
    cases hbinding
  rw [matchBinding_eq_matched hne, matchBinding_eq_matched hne]
  rw [matchBinding_eq_matched hne, (binding_matched _ _).1] at hbinding
  rw [matched_of_binding hbinding]
  have hbegin : Descending { ofText typed with candidates := bindings } :=
    ⟨fun _ => rfl, fun b hb => (Option.some_ne_none b hb.symm).elim, rfl, rfl⟩
  refine (descend_onText hbegin htext hbinding hleaf).imp_right fun hsame => ?_
  have hbinding' : (descend .autocomplete { ofText text with candidates := bindings }).binding =
      some leaf := (congrArg Scan.binding hsame).trans hbinding
  exact (congrArg rewind (matched_of_binding hbinding')).trans hsame

/-- The form that is attached to a scan is read without an error, if nothing is ahead. -/
theorem isFailed_parseForm_of_ahead_nil (hfailed : s.isFailed = false) (h : s.rewind.ahead = []) :
    ((s.withForm form).parseForm .autocomplete).isFailed = false := by
  have hahead : (s.withForm form).rewind.ahead = [] := h
  rw [parseForm_withForm, if_neg (by rw [hfailed]; exact Bool.false_ne_true),
    readForm_of_stop (step_startParameter_nil rfl hahead)]
  rfl

/-- If the parameters of a text begin where those of its prefix do, and are read without an error,
then so are those of the prefix. -/
theorem isFailed_parseForm_of_onText {a e : Scan} (htext : a.text <+: text)
    (ha : a.isFailed = false) (hsame : e.rewind = a.rewind.onText text)
    (he : ((e.withForm form).parseForm .autocomplete).isFailed = false) :
    ((a.withForm form).parseForm .autocomplete).isFailed = false := by
  by_cases hahead : a.rewind.ahead = []
  · exact isFailed_parseForm_of_ahead_nil ha hahead
  · have hstart : (a.withForm form).tokenStart ≤ (a.withForm form).text.length :=
      Nat.le_of_not_lt fun hlt => hahead (List.drop_eq_nil_of_le (Nat.le_of_lt hlt))
    refine Bool.eq_false_iff.mpr fun hfailed => ?_
    rw [parseForm_withForm, if_neg (by rw [ha]; exact Bool.false_ne_true)] at hfailed
    have hreading : Reading form a.text (a.withForm form).rewind := Reading.rewind hstart
    have hlonger := isFailed_readForm_onText htext hreading hfailed
    have hbegin : (a.withForm form).rewind.onText text = (e.withForm form).rewind :=
      congrArg (·.withForm form) hsame.symm
    rw [hbegin] at hlonger
    rw [parseForm_withForm] at he
    split at he
    · rename_i hfail
      have hfail' : (e.withForm form).isFailed = true := hfail
      rw [hfail'] at he
      cases he
    · rw [hlonger] at he
      cases he

/-- **Errors stay.**  Take a prefix of a text, and let it be matched to a leaf while it is typed.
Whatever form is attached to the leaf, if the text is read without an error, then so is the
prefix. -/
theorem isFailed_parseForm_of_isPrefix {typed text : String} (form : Form)
    (htext : typed.toList <+: text.toList)
    (hbinding : ((ofText typed).matchBinding bindings .autocomplete).binding = some leaf)
    (hleaf : leaf.isLeaf = true)
    (haccepted : ((((ofText text).matchBinding bindings .autocomplete).withForm form).parseForm
      .autocomplete).isFailed = false) :
    ((((ofText typed).matchBinding bindings .autocomplete).withForm form).parseForm
      .autocomplete).isFailed = false := by
  have hnotFailed := ((sameLeaf_matchBinding typed bindings).leaf leaf hbinding hleaf).1
  rcases matchBinding_onText htext hbinding hleaf with hahead | hsame
  · exact isFailed_parseForm_of_ahead_nil hnotFailed hahead
  · refine isFailed_parseForm_of_onText ?_ hnotFailed hsame haccepted
    rw [(sameInput_matchBinding (ofText typed) bindings .autocomplete).text]
    exact htext

/-- A form with a truth value and a note. -/
def reminderForm : Form where
  fields := [{ name := "daily", type := .bool }, { name := "note", position := 1 }]

/-- A command for one leaf, up to where its parameters begin. -/
def reminder (command : String) : Scan where
  state := .endCommand
  text := command.toList
  cursor := 15
  token := "--daily"
  tokenStart := 8
  location := "/remind"
  binding := some { label := "remind" }

theorem matchBinding_reminder {command : String}
    (h : (runWithin (descentStep .autocomplete) 20
      { ofText command with candidates := [{ label := "remind" }] }).map Prod.snd =
        some (reminder command)) :
    (ofText command).matchBinding [{ label := "remind" }] .autocomplete = reminder command :=
  matchBinding_of_runWithin 20 (reminder command) (s := ofText command) rfl
    (List.cons_ne_nil _ _) h

/-- A token that is no truth value is taken for the note, also where the prefix ends in it. -/
theorem isFailed_parseForm_of_isPrefix_tomorrow :
    let remind : Binding := { label := "remind" }
    let m (command : String) := (ofText command).matchBinding [remind] .autocomplete
    let read (command : String) := ((m command).withForm reminderForm).parseForm .autocomplete
    "/remind --daily tom".toList <+: "/remind --daily tomorrow ".toList ∧
      (m "/remind --daily tom").binding = some remind ∧ remind.isLeaf = true ∧
      (read "/remind --daily tomorrow ").isFailed = false ∧
      (read "/remind --daily tom").isFailed = false := by
  intro remind m read
  have hbinding : (m "/remind --daily tom").binding = some remind := by
    rw [show m "/remind --daily tom" = reminder "/remind --daily tom" from
      matchBinding_reminder rfl]
    rfl
  have hmatch : m "/remind --daily tomorrow " = reminder "/remind --daily tomorrow " :=
    matchBinding_reminder rfl
  have haccepted : (read "/remind --daily tomorrow ").isFailed = false := by
    have hrun : (runWithin (parameterStep reminderForm .autocomplete) 60
        ((reminder "/remind --daily tomorrow ").withForm reminderForm).rewind).map
          (·.2.isFailed) = some false := rfl
    obtain ⟨r, hr, hfailed⟩ := Option.map_eq_some_iff.mp hrun
    show (((m "/remind --daily tomorrow ").withForm reminderForm).parseForm _).isFailed = false
    rw [hmatch, parseForm_of_runWithin 60 r.2 rfl (by rw [hr]; rfl)]
    exact hfailed
  have htext : "/remind --daily tom".toList <+: "/remind --daily tomorrow ".toList :=
    ⟨"orrow ".toList, by decide⟩
  exact ⟨htext, hbinding, rfl, haccepted,
    isFailed_parseForm_of_isPrefix reminderForm htext hbinding rfl haccepted⟩

end Scan

end SlashCommand
