import SlashCommand.Proofs.Scan.LastToken
import SlashCommand.Proofs.Scan.Spans

/-!
# Where a completion is put

A completion takes the place of the text from the beginning of the last token on.  So that nothing
that was typed is overwritten or doubled, this text must be the last token and nothing else, as it
was typed: with its opening mark and its escapes if it is quoted, and empty between tokens.
`IsTyped` says so for each state in which a scan for typing can stop, and `isTyped_parseForm` that a
scan stops in no other state.

While the scan is inside or behind a token, this is what `Spans` says of it.  Between tokens the
position is a leftover, and the last step before the end moves it to the end.
-/

namespace SlashCommand

variable {q : Quote} {raw r body token : List Char}

/-! ## Reading between quotation marks -/

/-- The text without its escapes.  A backslash at the very end stands for nothing. -/
def unescape : List Char → List Char
  | [] => []
  | c :: text =>
    if c = '\\' then
      match text with
      | [] => []
      | literal :: text => literal :: unescape text
    else c :: unescape text

/-- What a text between quotation marks stands for.  Between ticks everything is verbatim. -/
def Quote.decode : Quote → List Char → List Char
  | double => unescape
  | tick => id

theorem unescape_of_ne {c : Char} (hc : c ≠ '\\') (text : List Char) :
    unescape (c :: text) = c :: unescape text := by
  rw [unescape.eq_def]
  exact if_neg hc

theorem unescape_escape (c : Char) (text : List Char) :
    unescape ('\\' :: c :: text) = c :: unescape text := by
  rw [unescape.eq_def]
  exact if_pos rfl

theorem QuotedText.unescape_append (h : QuotedText .double body token) (r : List Char) :
    unescape (body ++ r) = token ++ unescape r := by
  induction h with
  | nil => rfl
  | plain _ hescape _ ih =>
    rw [List.cons_append, unescape_of_ne (fun hc => hescape ⟨hc, rfl⟩), ih]
    rfl
  | escaped _ _ ih =>
    rw [List.cons_append, List.cons_append, unescape_escape, ih]
    rfl

theorem QuotedText.decode (h : QuotedText q body token) : q.decode body = token := by
  cases q with
  | double =>
    have hread := h.unescape_append []
    rwa [List.append_nil, unescape, List.append_nil] at hread
  | tick => exact h.eq_of_tick.1

/-- A backslash that ends the text is dropped. -/
theorem QuotedText.decode_dangling (h : QuotedText .double body token) :
    Quote.double.decode (body ++ ['\\']) = token :=
  (h.unescape_append ['\\']).trans (List.append_nil token)

/-! ## The last token -/

/-- The text was typed for the token, in the state where a scan stops. -/
def IsTyped (raw token : List Char) : ScanState → Prop
  | .startParameter => raw = [] ∧ token = []
  | .flagName => raw = token
  | .value _ (.separator _) => raw = [] ∧ token = []
  | .value _ (.quoted q) => ∃ body, raw = q.char :: body ∧ q.decode body = token
  | .value _ .endBare => raw = token
  | .value _ (.endQuoted q) => ∃ body, raw = q.char :: (body ++ [q.char]) ∧ q.decode body = token
  | .list _ .start => raw = [] ∧ token = []
  | .list _ .next => raw = [] ∧ token = []
  | .list _ .bare => raw = token
  | .list _ (.quoted q) => ∃ body, raw = q.char :: body ∧ q.decode body = token
  | .list _ .separator => raw = [] ∧ token = []
  | .listEnd _ => raw = [] ∧ token = []
  | .rest _ => raw = token
  | _ => False

theorem OpensQuotation.isTyped (h : OpensQuotation q raw token) :
    ∃ body, raw = q.char :: body ∧ q.decode body = token := by
  obtain ⟨body, hraw, hquoted⟩ := h
  exact ⟨body, hraw, hquoted.decode⟩

namespace Scan

/-- The text from the last token on was typed for it. -/
def StopsTyped (s : Scan) : Prop := IsTyped (s.text.drop s.tokenStart) s.token.toList s.state

variable {form : Form} {field : Field} {s t : Scan} {i : Nat}

/-! ## Steps that stop -/

/-- At the end of the text the token is what is left of the text. -/
theorem drop_tokenStart_of_nil (hs : Reading form s.text s) (hnil : s.ahead = []) :
    s.text.drop s.tokenStart = s.typed := by
  rw [← typed_append_ahead hs.tokenStart_le, hnil, List.append_nil]

/-- Between tokens nothing is left of the text. -/
theorem drop_cursor_of_nil (hnil : s.ahead = []) :
    s.text.drop s.cursor = [] ∧ s.beginToken.token.toList = [] :=
  ⟨hnil, String.toList_empty⟩

/-- What is left of the text of a quotation that is cut short, perhaps behind a backslash. -/
theorem CutsQuotation.isTyped (h : CutsQuotation q s t) (hs : Reading form s.text s)
    (hopen : OpensQuotation q s.typed s.token.toList) :
    ∃ body, t.text.drop t.tokenStart = q.char :: body ∧ q.decode body = t.token.toList := by
  cases h with
  | nil hnil =>
    rw [drop_tokenStart_of_nil hs hnil]
    exact hopen.isTyped
  | backslash hq hslash =>
    subst hq
    obtain ⟨body, htyped, hquoted⟩ := hopen
    refine ⟨body ++ ['\\'], ?_, hquoted.decode_dangling⟩
    show s.text.drop s.tokenStart = _
    rw [← typed_append_ahead hs.tokenStart_le, htyped, hslash]
    rfl

/-- Where a scan for typing stops, the text from its last token on was typed for the token. -/
theorem Spans.stopsTyped (h : Spans form s) (hs : Reading form s.text s) (hstops : Stops form .autocomplete s t) :
    t.StopsTyped := by
  have stopsIn {t : Scan} {state : ScanState} (hstate : t.state = state)
      (htyped : IsTyped (t.text.drop t.tokenStart) t.token.toList state) : t.StopsTyped := by
    rwa [StopsTyped, hstate]
  cases hstops with
  | startParameter hstate hnil => exact stopsIn hstate (drop_cursor_of_nil hnil)
  | parameterSeparator hstate hnil => exact ⟨hnil, h.of_state hstate⟩
  | flagName hstate hnil =>
    refine stopsIn hstate ?_
    rw [drop_tokenStart_of_nil hs hnil]
    exact (h.of_state hstate).1
  | separator _ hstate hnil => exact stopsIn hstate ⟨hnil, h.of_state hstate⟩
  | quotedValue hfield hstate hcut =>
    exact stopsIn (hcut.state_eq.trans hstate)
      (hcut.isTyped hs (h.tokenPart hstate rfl hfield).opensQuotation)
  | endBare hfield hstate hnil =>
    refine stopsIn hstate ?_
    rw [drop_tokenStart_of_nil hs hnil]
    exact (h.tokenPart hstate rfl hfield).raw_eq (.inr rfl)
  | endQuoted hfield hstate hnil =>
    refine stopsIn hstate ?_
    rw [drop_tokenStart_of_nil hs hnil]
    obtain ⟨body, -, htyped, hquoted⟩ := (h.tokenPart hstate rfl hfield).closesQuotation
    exact ⟨body, htyped, hquoted.decode⟩
  | element _ hstate hstage hnil =>
    rcases hstage with rfl | rfl
    · exact stopsIn hstate (drop_cursor_of_nil hnil)
    · exact stopsIn hstate (drop_cursor_of_nil hnil)
  | bareElement _ hstate hnil =>
    refine stopsIn hstate ?_
    rw [drop_tokenStart_of_nil hs hnil]
    exact (h.of_state hstate : ElementPart _ _ _ _).raw_eq
  | quotedElement _ hstate hcut =>
    exact stopsIn (hcut.state_eq.trans hstate)
      (hcut.isTyped hs (h.of_state hstate : ElementPart _ _ _ _).opensQuotation)
  | elementSeparator _ hstate hnil => exact stopsIn hstate (drop_cursor_of_nil hnil)
  | listEnd hstate hnil => exact stopsIn hstate (drop_cursor_of_nil hnil)
  | rest _ hstate =>
    obtain ⟨htyped, -⟩ := h.of_state hstate
    -- the rest of the line is the token
    have htoken : s.text.drop s.tokenStart = s.ahead := by
      rw [← typed_append_ahead hs.tokenStart_le, htyped, List.nil_append]
    refine stopsIn hstate ?_
    show s.text.drop s.tokenStart = (String.ofList s.ahead).toList
    rw [htoken, String.toList_ofList]

/-! ## Whole runs -/

/-- **The place of a completion.**  Where a scan for typing ends without an error, the text from the
last token on was typed for that token, and the scan is in one of the states of `IsTyped`. -/
theorem isTyped_parseForm {command : String} {bindings : List Binding} {mode : ScanMode}
    (form : Form) :
    let a := (((ofText command).matchBinding bindings mode).withForm form).parseForm .autocomplete
    a.isFailed = false → IsTyped (command.toList.drop a.tokenStart) a.token.toList a.state := by
  intro a hunfailed
  have ha : a = _ := parseForm_withForm _ form .autocomplete
  split at ha
  · rename_i hm
    rw [ha] at hunfailed
    exact absurd (hunfailed.symm.trans hm) Bool.false_ne_true
  · rename_i hm
    obtain ⟨htext, hreading, hspans⟩ := spans_matchBinding form (Bool.eq_false_iff.mpr hm)
    let post (t : Scan) : Prop := t.isFailed = false → t.text = command.toList ∧ t.StopsTyped
    have hend : post a := by
      rw [ha]
      refine readForm_of_spans (fun u v hu hu' hsame hstep _ => ?_)
        (fun u v e _ _ _ _ hnot => nomatch hnot) hreading hspans
      exact ⟨(hu.stop hstep).text_eq.trans (hsame.trans htext),
        hu'.stopsTyped hu (hu.stops hstep)⟩
    obtain ⟨hsame, htyped⟩ := hend hunfailed
    rw [← hsame]
    exact htyped

/-- A command that ends behind a backslash, inside a quotation. -/
theorem isTyped_parseForm_reminder :
    let command := "/remind --daily \"t\\"
    let m := (ofText command).matchBinding [{ label := "remind" }] .autocomplete
    let a := (m.withForm reminderForm).parseForm .autocomplete
    a.isFailed = false ∧ a.state = .value 0 (.quoted .double) ∧ a.tokenStart = 16 ∧
      IsTyped (command.toList.drop a.tokenStart) a.token.toList a.state := by
  intro command m a
  have hm : (ofText "/remind --daily \"t\\").matchBinding [{ label := "remind" }] .autocomplete =
      reminder "/remind --daily \"t\\" := matchBinding_reminder rfl
  have hrun : (runWithin (parameterStep reminderForm .autocomplete) 60
      ((reminder "/remind --daily \"t\\").withForm reminderForm).rewind).map
        (fun r => (r.2.state, r.2.tokenStart)) = some (.value 0 (.quoted .double), 16) := by
    rfl
  obtain ⟨r, hr, hlast⟩ := Option.map_eq_some_iff.mp hrun
  have ha : a = r.2 := by
    show (m.withForm reminderForm).parseForm .autocomplete = _
    rw [show m = _ from hm]
    exact parseForm_of_runWithin 60 r.2 rfl (by rw [hr]; rfl)
  obtain ⟨hstate, hstart⟩ := Prod.ext_iff.mp hlast
  have hunfailed : a.isFailed = false := by
    rw [ha, isFailed, show r.2.state = _ from hstate]
    rfl
  exact ⟨hunfailed, ha ▸ hstate, ha ▸ hstart, isTyped_parseForm reminderForm hunfailed⟩

end Scan

end SlashCommand
