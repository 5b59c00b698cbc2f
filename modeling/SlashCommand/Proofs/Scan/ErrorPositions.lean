import SlashCommand.Proofs.Scan.Spans

/-!
# Where errors show

The position of an error is where the cursor is when a step fails.  `ParseError.Shows` says for each
error what stands at its position: the character that was not expected, the name of the flag that is
not known right in front of it, and so on (`shows_parseForm`).

Most of it can be read off the step that fails.  What cannot is what the scan has read before: that
a parameter begins with no blank, that the name of a flag stands behind a dash, and that a bare
token is empty only at the end of the text.  All three are in `Spans`.
-/

namespace SlashCommand

/-- The error is that the text ends too early. -/
def GrammarError.isCutShort : GrammarError → Bool
  | missingQuote _ => true
  | missingListEnd => true
  | missingFieldValue _ => true
  | _ => false

/-- What stands at the position of an error. -/
def ParseError.IsAt (mode : ScanMode) (text : List Char) (e : ParseError) : Prop :=
  match e.error with
  | .noBindings => e.position = 0
  | .noSlashStart => e.position = 0
  | .noMatchingBinding word => e.position = 1 + word.length
  | .mustSelectSubcommand _ => False
  | .noArgumentPosition _ => ∃ c, text[e.position]? = some c ∧ Text.isBlank c = false
  | .unexpectedFlag flag => ∃ before, text.take e.position = before ++ '-' :: flag.toList
  | .multipleEquals => text[e.position]? = some '='
  | .missingQuote _ => mode = .execute ∧ e.position = text.length
  | .emptyValue => ∃ c ∈ ['"', '\x60', ',', ']'], text[e.position]? = some c
  | .unexpectedCharacter c => text[e.position]? = some c
  | .missingListEnd => mode = .execute ∧ e.position = text.length
  | .missingFieldValue _ => mode = .execute ∧ e.position = text.length

/-- An error shows where it is said to be.  While a command is typed that is in front of a
character, unless nothing of the command was read. -/
structure ParseError.Shows (mode : ScanMode) (text : List Char) (e : ParseError) : Prop where
  isAt : e.IsAt mode text
  position_le : e.position ≤ text.length
  typing : mode = .autocomplete → e.error ≠ .noBindings → e.error ≠ .noSlashStart →
    e.position < text.length

theorem ParseError.isAt_of_isCutShort {text : List Char} {e : ParseError}
    (h : e.error.isCutShort = true) (hend : e.position = text.length) : e.IsAt .execute text := by
  unfold ParseError.IsAt
  cases he : e.error with
  | missingQuote | missingListEnd | missingFieldValue => exact ⟨rfl, hend⟩
  | _ => rw [he] at h; cases h

namespace Scan

variable {form : Form} {mode : ScanMode} {field : Field} {s t : Scan} {i : Nat} {c : Char}
  {e : GrammarError} {r text : List Char}

/-! ## Steps that fail -/

/-- An error in front of a character. -/
theorem shows_of_ahead (hahead : s.ahead = c :: r)
    (h : s.text[s.cursor]? = some c → ParseError.IsAt mode s.text ⟨e, s.cursor⟩) :
    ParseError.Shows mode s.text ⟨e, s.cursor⟩ := by
  have hc := peek?_of_ahead hahead
  have hlt := cursor_lt_of_peek? hc
  exact ⟨h hc, Nat.le_of_lt hlt, fun _ _ _ => hlt⟩

/-- An error at the end of the text. -/
theorem shows_at_end (hs : Reading form s.text s) (hnil : s.ahead = []) (hmode : mode = .execute)
    (he : e.isCutShort = true) : ParseError.Shows mode s.text ⟨e, s.cursor⟩ := by
  subst hmode
  exact ⟨ParseError.isAt_of_isCutShort he (hs.cursor_eq hnil), hs.cursor_le, nofun⟩

/-- An element is empty where one of these characters stands in its place. -/
theorem shows_emptyElement (hahead : s.ahead = c :: r) (hc : c = ',' ∨ c = ']') :
    ParseError.Shows mode s.text ⟨.emptyValue, s.cursor⟩ := by
  refine shows_of_ahead hahead fun hpeek => ⟨c, ?_, hpeek⟩
  rcases hc with rfl | rfl
  · decide
  · decide

/-- The name of an unknown flag stands behind a dash. -/
theorem shows_unexpectedFlag (hs : Reading form s.text s) (h : Spans form s)
    (hstate : s.state = .flagName) (hmore : mode = .autocomplete → s.ahead ≠ []) :
    ParseError.Shows mode s.text ⟨.unexpectedFlag s.token, s.cursor⟩ := by
  obtain ⟨htyped, before, hbefore⟩ := h.of_state hstate
  refine ⟨⟨before, ?_⟩, hs.cursor_le, fun htyping _ _ => ?_⟩
  · show s.text.take s.cursor = _
    rw [← htyped, ← List.take_append_drop s.tokenStart (s.text.take s.cursor), List.take_take,
      Nat.min_eq_left hs.tokenStart_le, ← hbefore, List.append_assoc]
    rfl
  · obtain ⟨c, r, hahead⟩ := List.exists_cons_of_ne_nil (hmore htyping)
    exact cursor_lt_of_peek? (peek?_of_ahead hahead)

theorem CutsQuotation.shows {q : Quote} (hcut : CutsQuotation q s t) (hs : Reading form s.text s)
    (hmode : mode = .execute) : ParseError.Shows mode s.text ⟨.missingQuote q, t.cursor⟩ := by
  cases hcut with
  | nil hnil => exact shows_at_end hs hnil hmode rfl
  | backslash _ hahead =>
    exact shows_at_end (s := s.advance) (hs.advance hahead) (ahead_advance hahead) hmode rfl

theorem QuotedFails.shows {q : Quote} (hfails : QuotedFails mode q s t e)
    (hs : Reading form s.text s) : ParseError.Shows mode s.text ⟨e, t.cursor⟩ := by
  cases hfails with
  | empty hahead =>
    refine shows_of_ahead hahead fun hpeek => ⟨q.char, ?_, hpeek⟩
    rcases q.char_cases with hq | hq
    · simp [hq]
    · simp [hq]
  | cut hmode hcut => exact hcut.shows hs hmode

/-- A step that fails shows its error. -/
theorem Fails.shows (hfails : Fails form mode s t e) (hs : Reading form s.text s)
    (h : Spans form s) : ParseError.Shows mode s.text ⟨e, t.cursor⟩ := by
  cases hfails with
  | @position c r hstate hahead =>
    obtain ⟨-, hplain⟩ := h.of_state hstate
    refine shows_of_ahead (s := s) hahead fun hpeek => ⟨c, hpeek, hplain c ?_⟩
    rw [hahead]
    rfl
  | flag hstate hend =>
    refine shows_unexpectedFlag hs h hstate fun htyping => ?_
    rcases hend with ⟨-, hexecute⟩ | ⟨c, r, hahead, -⟩
    · rw [htyping] at hexecute
      cases hexecute
    · rw [hahead]
      exact List.cons_ne_nil c r
  | equals _ hahead | blank _ hahead | behindQuotation _ hahead | inElement _ hahead
  | behindElement _ hahead | behindList _ hahead => exact shows_of_ahead (s := s) hahead id
  | quotedValue _ hquoted | quotedElement _ hquoted => exact hquoted.shows hs
  | missing hfield hstate htoken hmore =>
    -- a bare token is empty only at the end of the text
    have hpart := h.tokenPart hstate rfl hfield
    rw [htoken] at hpart
    have hnil : s.ahead = [] := hpart.eq_nil
    have hmode : mode = .execute := by
      cases mode with
      | autocomplete => exact absurd hnil (hmore rfl)
      | execute => rfl
    exact shows_at_end hs hnil hmode rfl
  | listCut _ _ hmode hnil => exact shows_at_end (s := s.beginToken) hs.beginToken hnil hmode rfl
  | elementCut _ hmode hnil => exact shows_at_end hs hnil hmode rfl
  | noElement _ hahead hc => exact shows_emptyElement hahead hc.symm
  | emptyElement _ hahead hc => exact shows_emptyElement (s := s) hahead hc

/-! ## Whole runs -/

variable {command : String} {bindings : List Binding}

/-- A run that fails shows its error. -/
theorem shows_readForm {err : ParseError} (hs : Reading form s.text s) (h : Spans form s)
    (herr : (readForm form mode s).error? = some err) : err.Shows mode s.text := by
  let post (t : Scan) : Prop := ∀ err, t.error? = some err → err.Shows mode s.text
  suffices hpost : post (readForm form mode s) from hpost err herr
  refine readForm_of_spans ?_ ?_ hs h
  · intro u v hu _ _ hstep err hv
    have hnone : v.error? = none := error?_eq_none_of_isFailed (hu.stop hstep).notFailed
    rw [hnone] at hv
    cases hv
  · intro u v e hu hspans htext hstep err hv
    obtain rfl := Option.some.inj hv
    rw [← htext]
    exact (fails_of_parameterStep hstep).shows hu hspans

/-- The first word of a command is the one that matches no binding. -/
theorem shows_noMatchingBinding {text : List Char} (hslash : command.toList = '/' :: text)
    (hbehind : ¬ (mode = .autocomplete ∧ behindWord text = [])) :
    ParseError.Shows mode command.toList
      ⟨.noMatchingBinding (String.ofList (firstWord text)), 1 + (firstWord text).length⟩ := by
  have hlength : command.toList.length =
      1 + ((firstWord text).length + (behindWord text).length) := by
    rw [hslash, List.length_cons, ← List.length_append, firstWord_append_behindWord, Nat.add_comm]
  refine ⟨?_, ?_, fun htyping _ _ => ?_⟩
  · show _ = 1 + (String.ofList (firstWord text)).length
    rw [String.length_ofList]
  · show 1 + (firstWord text).length ≤ command.toList.length
    omega
  · have hpos := List.length_pos_iff.mpr fun hnil => hbehind ⟨htyping, hnil⟩
    show 1 + (firstWord text).length < command.toList.length
    omega

/-- A command that matches no binding shows its error. -/
theorem shows_matchBinding {err : ParseError}
    (herr : ((ofText command).matchBinding bindings mode).error? = some err) :
    err.Shows mode command.toList := by
  by_cases hne : bindings = []
  · subst hne
    obtain rfl := Option.some.inj herr
    exact ⟨rfl, Nat.zero_le _, fun _ hnot => absurd rfl hnot⟩
  · by_cases hslash : ∃ text, command.toList = '/' :: text
    · obtain ⟨text, hslash⟩ := hslash
      have hunfailed (h : ((ofText command).matchBinding bindings mode).isFailed = false) :
          err.Shows mode command.toList := by
        rw [error?_eq_none_of_isFailed h] at herr
        cases herr
      cases hlast : (deepestChain bindings (lookedUp mode (tokensFrom 1 text))).getLast? with
      | none =>
        have hnil := matchBinding_of_nil hslash hne (List.getLast?_eq_none_iff.mp hlast)
        by_cases htyping : mode = .autocomplete ∧ behindWord text = []
        · exact hunfailed (hnil.1 htyping)
        · rw [error?_of_state (hnil.2 htyping)] at herr
          obtain rfl := Option.some.inj herr
          exact shows_noMatchingBinding hslash htyping
      | some deepest =>
        obtain ⟨state, cursor, token, hstate, heq⟩ := matchBinding_of_chain hslash hne rfl hlast
        exact hunfailed (heq ▸ hstate)
    · rw [error?_of_state (matchBinding_of_noSlash hne (not_exists.mp hslash))] at herr
      obtain rfl := Option.some.inj herr
      exact ⟨rfl, Nat.zero_le _, fun _ _ hnot => absurd rfl hnot⟩

/-- **Exact positions.**  An error that a command ends in shows at its position, whether the command
is executed or typed. -/
theorem shows_parseForm {form : Form} {err : ParseError}
    (herr : ((((ofText command).matchBinding bindings mode).withForm form).parseForm mode).error? =
      some err) :
    err.Shows mode command.toList := by
  rw [parseForm_withForm] at herr
  split at herr
  · exact shows_matchBinding herr
  · rename_i hm
    obtain ⟨htext, hreading, hspans⟩ := spans_matchBinding form (Bool.eq_false_iff.mpr hm)
    rw [← htext]
    exact shows_readForm hreading hspans herr

/-- Behind the closing mark of a quotation stands something else. -/
theorem shows_parseForm_reminder :
    let command := "/remind --daily \"a b\"c"
    let m := (ofText command).matchBinding [{ label := "remind" }] .autocomplete
    let err : ParseError := ⟨.unexpectedCharacter 'c', 21⟩
    ((m.withForm reminderForm).parseForm .autocomplete).error? = some err ∧
      err.Shows .autocomplete command.toList := by
  intro command m err
  have hrun : (runWithin (parameterStep reminderForm .autocomplete) 60
      ((reminder "/remind --daily \"a b\"c").withForm reminderForm).rewind).map (·.2.error?) =
        some (some ⟨.unexpectedCharacter 'c', 21⟩) := by
    rfl
  have herr : ((m.withForm reminderForm).parseForm .autocomplete).error? = some err := by
    obtain ⟨r, hr, herr⟩ := Option.map_eq_some_iff.mp hrun
    have hm : (ofText "/remind --daily \"a b\"c").matchBinding [{ label := "remind" }]
        .autocomplete = reminder "/remind --daily \"a b\"c" := matchBinding_reminder rfl
    rw [show m = _ from hm, parseForm_of_runWithin 60 r.2 rfl (by rw [hr]; rfl)]
    exact herr
  exact ⟨herr, shows_parseForm herr⟩

end Scan

end SlashCommand
