import SlashCommand.Proofs.Scan.Prefixes
import SlashCommand.Proofs.Scan.Setbacks
import SlashCommand.Proofs.Scan.TypedTokens

/-!
# The text of the current token

A scan keeps the token that it is reading, and the position where the token begins.  The text
between that position and the cursor, `Scan.typed`, is what was typed for the token so far.  It is
the token itself where nothing is quoted, and otherwise the token in its marks and with its escapes.

The beginning of a token is set in many places, and often long before the first character of it is
read.  `Spans` says, state by state, what the position is good for: in some states it is where the
token begins, in others it is a leftover and all that counts is that the token is empty.  Every step
keeps it, whatever the form and the mode are (`Spans.next`).
-/

namespace SlashCommand

variable {q : Quote} {field : Field} {raw r body token : List Char} {c : Char}

/-! ## Tokens that grow -/

/-- What has been read of a quotation that is not closed yet. -/
def OpensQuotation (q : Quote) (raw token : List Char) : Prop :=
  ∃ body, raw = q.char :: body ∧ QuotedText q body token

/-- What has been read of a quotation that is closed. -/
def ClosesQuotation (q : Quote) (raw token : List Char) : Prop :=
  ∃ body, body ≠ [] ∧ raw = q.char :: (body ++ [q.char]) ∧ QuotedText q body token

theorem OpensQuotation.push (h : OpensQuotation q raw token) (hclose : c ≠ q.char)
    (hescape : ¬ (c = '\\' ∧ q = .double)) : OpensQuotation q (raw ++ [c]) (token ++ [c]) := by
  obtain ⟨body, rfl, hquoted⟩ := h
  exact ⟨body ++ [c], rfl, hquoted.append (.plain hclose hescape .nil)⟩

theorem OpensQuotation.escape (h : OpensQuotation q raw token) (hq : q = .double) :
    OpensQuotation q (raw ++ ['\\', c]) (token ++ [c]) := by
  obtain ⟨body, rfl, hquoted⟩ := h
  exact ⟨body ++ ['\\', c], rfl, hquoted.append (.escaped hq .nil)⟩

theorem OpensQuotation.close (h : OpensQuotation q raw token) (hne : raw.length ≠ 1) :
    ClosesQuotation q (raw ++ [q.char]) token := by
  obtain ⟨body, rfl, hquoted⟩ := h
  refine ⟨body, ?_, rfl, hquoted⟩
  rintro rfl
  exact hne rfl

theorem OpensQuotation.tokenPart (h : OpensQuotation q raw token) :
    TokenPart field r (.quoted q) raw token := by
  obtain ⟨body, rfl, hquoted⟩ := h
  exact .quoted hquoted

theorem OpensQuotation.elementPart (h : OpensQuotation q raw token) :
    ElementPart r (.quoted q) raw token := by
  obtain ⟨body, rfl, hquoted⟩ := h
  exact .quoted hquoted

theorem ClosesQuotation.tokenPart (h : ClosesQuotation q raw token) :
    TokenPart field r (.endQuoted q) raw token := by
  obtain ⟨body, hbody, rfl, hquoted⟩ := h
  exact .endQuoted hbody hquoted

theorem ClosesQuotation.elementPart (h : ClosesQuotation q raw token) :
    ElementPart r .elementEnd raw token := by
  obtain ⟨body, hbody, rfl, hquoted⟩ := h
  exact .ended (.quoted (.mk hbody hquoted))

theorem TokenPart.opensQuotation (h : TokenPart field r (.quoted q) raw token) :
    OpensQuotation q raw token := by
  obtain - | - | hquoted | - := h
  exact ⟨_, rfl, hquoted⟩

theorem TokenPart.closesQuotation (h : TokenPart field r (.endQuoted q) raw token) :
    ClosesQuotation q raw token := by
  obtain - | - | - | ⟨hbody, hquoted⟩ := h
  exact ⟨_, hbody, rfl, hquoted⟩

theorem ElementPart.opensQuotation (h : ElementPart r (.quoted q) raw token) :
    OpensQuotation q raw token := by
  obtain - | hquoted | - := h
  exact ⟨_, rfl, hquoted⟩

/-- A bare token is the text that was typed for it. -/
theorem TokenPart.raw_eq {stage : ValueStage} (h : TokenPart field r stage raw token)
    (hstage : stage = .bare ∨ stage = .endBare) : raw = token := by
  cases h with
  | bare | endBare => rfl
  | quoted | endQuoted => rcases hstage with hstage | hstage <;> cases hstage

/-- A bare token is empty only at the end of the text. -/
theorem TokenPart.eq_nil (h : TokenPart field r .endBare raw []) : r = [] := by
  cases h with
  | endBare _ hbegin hblank => exact eq_nil_of_startsBlank hblank fun c hc => (hbegin c hc).2.2

/-- A bare token that is complete is followed by a blank or nothing. -/
theorem TokenPart.startsBlank (h : TokenPart field r .endBare raw token) : StartsBlank r := by
  cases h with
  | endBare _ _ hblank => exact hblank

/-- A token begins with no blank. -/
theorem TokenPart.startsPlain {stage : ValueStage} (h : TokenPart field r stage raw token) :
    StartsPlain (raw ++ r) := by
  cases h with
  | bare _ hbegin | endBare _ hbegin _ => exact fun c hc => (hbegin c hc).2.2
  | quoted | endQuoted => exact startsPlain_cons (Quote.isBlank_char _)

theorem ElementPart.raw_eq (h : ElementPart r .bare raw token) : raw = token := by
  cases h with
  | bare => rfl

namespace Scan

/-! ## What has been typed of the token -/

/-- The text from the beginning of the current token to the cursor. -/
def typed (s : Scan) : List Char := (s.text.take s.cursor).drop s.tokenStart

variable {form : Form} {mode : ScanMode} {s t : Scan} {i : Nat}

theorem typed_of_eq (h : s.tokenStart = s.cursor) : s.typed = [] := by
  rw [typed, h, List.drop_eq_nil_iff]
  exact List.length_take_le ..

theorem typed_append_ahead (h : s.tokenStart ≤ s.cursor) :
    s.typed ++ s.ahead = s.text.drop s.tokenStart := by
  rw [typed, ahead, List.drop_take]
  have hsplit := List.take_append_drop (s.cursor - s.tokenStart) (s.text.drop s.tokenStart)
  rwa [List.drop_drop, Nat.add_sub_cancel' h] at hsplit

theorem length_typed (hs : Reading form s.text s) : s.typed.length = s.cursor - s.tokenStart := by
  rw [typed, List.length_drop, List.length_take, Nat.min_eq_left hs.cursor_le]

/-- A character that is read is a character more of the text of the token. -/
theorem typed_of_read (hs : s.tokenStart ≤ s.cursor) (hc : s.peek? = some c)
    (htext : t.text = s.text) (hcursor : t.cursor = s.cursor + 1)
    (hstart : t.tokenStart = s.tokenStart) : t.typed = s.typed ++ [c] := by
  obtain ⟨hlt, rfl⟩ := List.getElem?_eq_some_iff.mp hc
  rw [typed, typed, htext, hcursor, hstart, List.take_succ_eq_append_getElem hlt]
  refine List.drop_append_of_le_length ?_
  rw [List.length_take]
  omega

theorem typed_advance (hs : s.tokenStart ≤ s.cursor) (hc : s.peek? = some c) :
    s.advance.typed = s.typed ++ [c] :=
  typed_of_read hs hc rfl rfl rfl

theorem typed_push (hs : s.tokenStart ≤ s.cursor) (hc : s.peek? = some c) (d : Char) :
    (s.push d).typed = s.typed ++ [c] :=
  typed_of_read hs hc rfl rfl rfl

theorem toList_push_token (d : Char) : (s.push d).token.toList = s.token.toList ++ [d] :=
  String.toList_push ..

/-! ## What the beginning of the token is good for -/

/-- What is known of the current token in a state: `before` is the text in front of the token, `raw`
what has been typed of it, `r` what is ahead, and `token` what it stands for. -/
def SpansIn (form : Form) (before raw r token : List Char) : ScanState → Prop
  | .startParameter => raw = [] ∧ StartsPlain r
  | .parameterSeparator => token = []
  | .flagDash => raw = ['-']
  | .flagName => raw = token ∧ ['-'] <:+ before
  | .value _ (.separator _) => token = []
  | .value _ .start => raw = [] ∧ StartsPlain r
  | .value i stage => ∃ field, form.fields[i]? = some field ∧ TokenPart field r stage raw token
  | .list _ .start => True
  | .list _ .next => True
  | .list _ .elementStart => ∃ c r', r = c :: r' ∧ Text.isBlank c = false ∧ c ≠ ']'
  | .list _ .separator => True
  | .list _ stage => ElementPart r stage raw token
  | .listEnd _ => True
  | .rest i => raw = [] ∧ r ≠ [] ∧ ∃ field, form.fields[i]? = some field ∧ field.isRest = true
  | _ => False

/-- What a scan knows of its current token. -/
def Spans (form : Form) (s : Scan) : Prop :=
  SpansIn form (s.text.take s.tokenStart) s.typed s.ahead s.token.toList s.state

theorem Spans.of_state {state : ScanState} (h : Spans form s) (hstate : s.state = state) :
    SpansIn form (s.text.take s.tokenStart) s.typed s.ahead s.token.toList state := by
  rwa [Spans, hstate] at h

theorem spans_of_state {state : ScanState} (hstate : s.state = state)
    (h : SpansIn form (s.text.take s.tokenStart) s.typed s.ahead s.token.toList state) :
    Spans form s := by
  rwa [Spans, hstate]

/-- The value of a field is being read. -/
theorem Spans.tokenPart {stage : ValueStage} (h : Spans form s) (hstate : s.state = .value i stage)
    (hstage : inOpenValue (.value i stage) = true) (hfield : form.fields[i]? = some field) :
    TokenPart field s.ahead stage s.typed s.token.toList := by
  have hopen := h.of_state hstate
  have hfound : ∃ f, form.fields[i]? = some f ∧
      TokenPart f s.ahead stage s.typed s.token.toList := by
    cases stage with
    | separator | start => cases hstage
    | bare | quoted | endBare | endQuoted => exact hopen
  obtain ⟨f, hf, hpart⟩ := hfound
  obtain rfl := Option.some.inj (hf.symm.trans hfield)
  exact hpart

/-! ## Steps -/

/-- The text in front of the cursor ends with what was typed last. -/
theorem suffix_take_cursor (s : Scan) : s.typed <:+ s.text.take s.cursor :=
  List.drop_suffix _ _

/-- Behind its opening mark nothing has been read of a quotation. -/
theorem opensQuotation_beginToken {q : Quote} (hahead : s.ahead = q.char :: r) :
    OpensQuotation q s.beginToken.advance.typed s.beginToken.advance.token.toList := by
  refine ⟨[], ?_, .nil⟩
  rw [typed_advance (s := s.beginToken) (Nat.le_refl _) (peek?_of_ahead hahead), typed_of_eq rfl]
  rfl

/-- No token begins with nothing read. -/
theorem tokenPart_beginToken (h : ∀ c ∈ s.ahead.head?, BeginsBare field c) :
    TokenPart field s.beginToken.ahead .bare s.beginToken.typed s.beginToken.token.toList := by
  rw [typed_of_eq rfl]
  exact .bare nofun h

theorem elementPart_beginToken (h : ∀ c ∈ s.ahead.head?, ¬ EndsElement c) :
    ElementPart s.beginToken.ahead .bare s.beginToken.typed s.beginToken.token.toList := by
  rw [typed_of_eq rfl]
  exact .bare nofun h

/-- A quotation goes on, or its closing mark is read. -/
theorem QuotedMoves.quotation {closed : ScanState} (hmove : QuotedMoves q closed s t)
    (hs : Reading form s.text s) (h : OpensQuotation q s.typed s.token.toList) :
    t.state = closed ∧ t.tokenStart = s.tokenStart ∧ s.peek? = some q.char ∧
        ClosesQuotation q t.typed t.token.toList ∨
      t.state = s.state ∧ t.tokenStart = s.tokenStart ∧
        OpensQuotation q t.typed t.token.toList := by
  have hstart := hs.tokenStart_le
  cases hmove with
  | close hahead hinside =>
    have hmark := peek?_of_ahead hahead
    refine .inl ⟨rfl, rfl, hmark, ?_⟩
    show ClosesQuotation q s.advance.typed s.token.toList
    rw [typed_advance hstart hmark]
    refine h.close ?_
    rw [length_typed hs]
    omega
  | escape hq hahead =>
    refine .inr ⟨rfl, rfl, ?_⟩
    rw [typed_push (Nat.le_succ_of_le hstart) (peek?_of_ahead (ahead_advance hahead)),
      typed_advance hstart (peek?_of_ahead hahead), toList_push_token, List.append_assoc]
    exact h.escape hq
  | plain hahead hclose hescape =>
    refine .inr ⟨rfl, rfl, ?_⟩
    rw [typed_push hstart (peek?_of_ahead hahead), toList_push_token]
    exact h.push hclose hescape

/-- A token that is taken back begins with no blank. -/
theorem ValueEndMoves.spans {stage : ValueStage} {quoted : Bool}
    (hmove : ValueEndMoves mode field quoted s t) (hs : Reading form s.text s)
    (hpart : TokenPart field s.ahead stage s.typed s.token.toList) : Spans form t := by
  cases hmove with
  | rescan =>
    refine ⟨typed_of_eq rfl, ?_⟩
    show StartsPlain (s.text.drop s.tokenStart)
    rw [← typed_append_ahead hs.tokenStart_le]
    exact hpart.startsPlain
  | close => exact String.toList_empty

theorem ValueMoves.spans {stage : ValueStage} (hmove : ValueMoves mode field i s stage t)
    (hfield : form.fields[i]? = some field) (hstate : s.state = .value i stage)
    (hs : Reading form s.text s) (h : Spans form s) : Spans form t := by
  cases hmove with
  | separatorEnd _ hnil => exact ⟨typed_of_eq rfl, (hnil ▸ nofun : StartsPlain s.ahead)⟩
  | begin hahead _ hplain =>
    exact ⟨typed_of_eq rfl, (hahead ▸ startsPlain_cons hplain : StartsPlain s.ahead)⟩
  | equals => exact (h.of_state hstate : s.token.toList = [])
  | gap => exact spans_of_state hstate (h.of_state hstate)
  | startEnd hnil => exact ⟨field, hfield, tokenPart_beginToken (hnil ▸ nofun)⟩
  | quote hahead => exact ⟨field, hfield, (opensQuotation_beginToken hahead).tokenPart⟩
  | bracket => trivial
  | bare hahead hbegins =>
    refine ⟨field, hfield, tokenPart_beginToken (s := s) fun d hd => ?_⟩
    rw [hahead] at hd
    rwa [← Option.some.inj hd]
  | push hahead hplain =>
    have hpart := h.tokenPart hstate rfl hfield
    rw [hahead] at hpart
    refine spans_of_state hstate ?_
    rw [ahead_push hahead, typed_push hs.tokenStart_le (peek?_of_ahead hahead), toList_push_token]
    exact ⟨field, hfield, hpart.push hplain⟩
  | complete hblank => exact ⟨field, hfield, (h.tokenPart hstate rfl hfield).complete hblank⟩
  | quoted hquoted =>
    have hbegun := (h.tokenPart hstate rfl hfield).opensQuotation
    rcases hquoted.quotation hs hbegun with ⟨ht, -, -, hclosed⟩ | ⟨ht, -, hgoes⟩
    · exact spans_of_state ht ⟨field, hfield, hclosed.tokenPart⟩
    · exact spans_of_state (ht.trans hstate) ⟨field, hfield, hgoes.tokenPart⟩
  | endBare hend | endQuoted hend => exact hend.spans hs (h.tokenPart hstate rfl hfield)

theorem ListMoves.spans {stage : ListStage} (hmove : ListMoves field i s stage t)
    (hstate : s.state = .list i stage) (hs : Reading form s.text s) (h : Spans form s) :
    Spans form t := by
  cases hmove with
  | gap hstage =>
    refine spans_of_state hstate ?_
    rcases hstage with rfl | rfl | rfl
    all_goals trivial
  | begin _ hahead hplain hclose => exact ⟨_, _, hahead, hplain, hclose⟩
  | startEnd hnil => exact elementPart_beginToken (hnil ▸ nofun)
  | quote hahead => exact (opensQuotation_beginToken hahead).elementPart
  | bare hahead _ hcomma hclose =>
    obtain ⟨c, r, hfirst, hplain, -⟩ := h.of_state hstate
    refine elementPart_beginToken (s := s) fun d hd => ?_
    rw [hahead] at hd hfirst
    obtain ⟨rfl, -⟩ := List.cons.inj hfirst
    obtain rfl := Option.some.inj hd
    rintro (hblank | hd | hd)
    · rw [hblank] at hplain
      cases hplain
    · exact hcomma hd
    · exact hclose hd
  | push hahead hchar =>
    have hpart : ElementPart s.ahead .bare s.typed s.token.toList := h.of_state hstate
    rw [hahead] at hpart
    refine spans_of_state hstate ?_
    rw [ahead_push hahead, typed_push hs.tokenStart_le (peek?_of_ahead hahead), toList_push_token]
    exact hpart.push hchar
  | complete hahead hends =>
    have hpart : ElementPart s.ahead .bare s.typed s.token.toList := h.of_state hstate
    show ElementPart s.ahead .elementEnd s.typed s.token.toList
    rw [hahead] at hpart ⊢
    exact hpart.complete hends
  | quoted hquoted =>
    have hbegun := (h.of_state hstate : ElementPart _ _ _ _).opensQuotation
    rcases hquoted.quotation hs hbegun with ⟨ht, -, -, hclosed⟩ | ⟨ht, -, hgoes⟩
    · exact spans_of_state ht hclosed.elementPart
    · exact spans_of_state (ht.trans hstate) hgoes.elementPart
  | close | append | comma => trivial

/-- A step keeps what is known of the current token. -/
theorem Spans.next (h : Spans form s) (hs : Reading form s.text s)
    (hstep : parameterStep form mode s = .next t) : Spans form t := by
  have hstart := hs.tokenStart_le
  cases moves_of_parameterStep hstep with
  | dash hstate hahead =>
    obtain ⟨htyped, -⟩ := h.of_state hstate
    show s.advance.typed = ['-']
    rw [typed_advance hstart (peek?_of_ahead hahead), htyped]
    rfl
  | positional hstate => exact (h.of_state hstate : s.typed = [] ∧ StartsPlain s.ahead)
  | rest _ hahead _ hi =>
    obtain ⟨hlt, hrest, -⟩ := List.findIdx?_eq_some_iff_getElem.mp hi
    refine ⟨typed_of_eq rfl, ?_, _, List.getElem?_eq_getElem hlt, (Bool.and_eq_true_iff.mp hrest).1⟩
    show s.ahead ≠ []
    rw [hahead]
    exact List.cons_ne_nil _ _
  | gap hstate => exact spans_of_state hstate (h.of_state hstate)
  | begin _ hahead hplain =>
    exact ⟨typed_of_eq rfl, (hahead ▸ startsPlain_cons hplain : StartsPlain s.ahead)⟩
  | secondDash _ hahead =>
    refine ⟨typed_of_eq rfl, ?_⟩
    obtain ⟨hlt, hdash⟩ := List.getElem?_eq_some_iff.mp (peek?_of_ahead hahead)
    show ['-'] <:+ s.text.take (s.cursor + 1)
    rw [List.take_succ_eq_append_getElem hlt, hdash]
    exact List.suffix_append _ _
  | singleDash hstate =>
    have htyped : s.typed = ['-'] := h.of_state hstate
    exact ⟨typed_of_eq rfl, htyped ▸ suffix_take_cursor s⟩
  | @name c _ hstate hahead =>
    obtain ⟨htyped, hdash⟩ := h.of_state hstate
    refine spans_of_state hstate ?_
    rw [typed_push hstart (peek?_of_ahead hahead), toList_push_token]
    exact ⟨congrArg (· ++ [c]) htyped, hdash⟩
  | flag | listEnd => exact String.toList_empty
  | value hfield hstate hmove => exact hmove.spans hfield hstate hs h
  | list _ hstate hmove => exact hmove.spans hstate hs h

/-- In front of the parameters no token is being read. -/
theorem spans_rewind (h : StartsPlain (s.text.drop s.tokenStart)) : Spans form s.rewind :=
  ⟨typed_of_eq rfl, h⟩

/-- What the last step of a run makes of what is known of the current token, the run ends in. -/
theorem readForm_of_spans {post : Scan → Prop}
    (stop : ∀ u v, Reading form u.text u → Spans form u → u.text = s.text →
      parameterStep form mode u = .stop v → post v)
    (fail : ∀ u v e, Reading form u.text u → Spans form u → u.text = s.text →
      parameterStep form mode u = .fail v e → post (v.fail e))
    (hs : Reading form s.text s) (h : Spans form s) : post (readForm form mode s) := by
  refine run_invariant (fun u => Reading form s.text u ∧ Spans form u) post ?_ ?_ ?_ ⟨hs, h⟩
  · rintro u v ⟨hreading, hspans⟩ hstep
    exact ⟨hreading.next hstep, hspans.next (hreading.text_eq ▸ hreading) hstep⟩
  · rintro u v ⟨hreading, hspans⟩ hstep
    exact stop u v (hreading.text_eq ▸ hreading) hspans hreading.text_eq hstep
  · rintro u v e ⟨hreading, hspans⟩ hstep
    exact fail u v e (hreading.text_eq ▸ hreading) hspans hreading.text_eq hstep

/-! ## Where the parameters begin -/

variable {command : String} {text : List Char} {bindings chain : List Binding}

/-- The tokens of a text stand in it, and all but the first one begin with no blank. -/
theorem exists_of_tokensFrom {start k : Nat} {token : CommandToken}
    (h : (tokensFrom start text)[k]? = some token) :
    ∃ w r, text = w ++ r ∧ token.start = start + w.length ∧
      (k ≠ 0 ∨ StartsPlain text → StartsPlain r) := by
  induction hn : text.length using Nat.strongRecOn generalizing start k text with
  | ind n ih =>
    rw [tokensFrom] at h
    cases k with
    | zero =>
      obtain rfl := Option.some.inj h
      exact ⟨[], text, rfl, rfl, fun hplain => hplain.resolve_left (not_not_intro rfl)⟩
    | succ k =>
      rw [List.getElem?_cons_succ] at h
      split at h
      · rename_i hnext
        obtain ⟨w, r, htext, hstart, hplain⟩ := ih _ (hn ▸ length_nextWord_lt hnext) h rfl
        refine ⟨firstWord text ++ (gapBehind text ++ w), r, ?_, ?_,
          fun _ => hplain (.inr (startsPlain_nextWord text))⟩
        · rw [List.append_assoc, List.append_assoc, ← htext, gapBehind_append_nextWord,
            firstWord_append_behindWord]
        · rw [hstart, List.length_append, List.length_append]
          omega
      · cases h

/-- The parameters begin with no blank, if the first token does not or is a label. -/
theorem startsPlain_parametersStart (h : command.toList = '/' :: text)
    (hplain : chain ≠ [] ∨ StartsPlain text) :
    StartsPlain (command.toList.drop
      (parametersStart (tokensFrom 1 text) chain command.length)) := by
  unfold parametersStart
  cases hk : (tokensFrom 1 text)[chain.length]? with
  | none =>
    show StartsPlain (command.toList.drop command.toList.length)
    rw [List.drop_length]
    exact nofun
  | some token =>
    obtain ⟨w, r, htext, hstart, hbegin⟩ := exists_of_tokensFrom hk
    have hsplit : command.toList = ('/' :: w) ++ r := by rw [h, htext, List.cons_append]
    have hlength : token.start = ('/' :: w).length := by rw [hstart, List.length_cons, Nat.add_comm]
    show StartsPlain (command.toList.drop token.start)
    rw [hlength, hsplit, List.drop_left]
    refine hbegin (hplain.imp_left fun hne hlength => hne ?_)
    exact List.length_eq_zero_iff.mp hlength

theorem tokenStart_matched (mode : ScanMode) (s : Scan) :
    (matched mode s).tokenStart = s.tokenStart := by
  unfold matched
  split
  · rfl
  · rfl

/-- A command without a slash fails at its beginning. -/
theorem matchBinding_of_noSlash (hne : bindings ≠ []) (h : ∀ r, command.toList ≠ '/' :: r) :
    ((ofText command).matchBinding bindings mode).state = .failed ⟨.noSlashStart, 0⟩ := by
  have hpeek : ({ ofText command with candidates := bindings } : Scan).peek? ≠ some '/' := by
    intro hslash
    obtain ⟨r, hr⟩ := ahead_of_peek? hslash
    exact h r hr
  have hfail : descentStep mode { ofText command with candidates := bindings } =
      .fail _ .noSlashStart := if_neg hpeek
  rw [matchBinding_eq_matched hne, descend, run_of_fail hfail]
  rfl

/-- Where a binding is matched, or may still be, the parameters begin with no blank. -/
theorem startsPlain_matchBinding
    (hm : ((ofText command).matchBinding bindings mode).isFailed = false) :
    StartsPlain (command.toList.drop
      ((ofText command).matchBinding bindings mode).tokenStart) := by
  have hne : bindings ≠ [] := by
    rintro rfl
    cases hm
  by_cases hslash : ∃ text, command.toList = '/' :: text
  · obtain ⟨text, hslash⟩ := hslash
    obtain ⟨chain, state, cursor, token, hchain, hrun, hend⟩ :=
      descend_behindSlash mode bindings hslash
    have hplain : chain ≠ [] ∨ StartsPlain text := by
      refine Classical.or_iff_not_imp_left.mpr fun hnil => ?_
      obtain rfl := Classical.not_not.mp hnil
      -- the first token is still being typed
      have htyping : behindWord text = [] := by
        refine Classical.byContradiction fun hbehind => ?_
        have hfailed := (matchBinding_of_nil hslash hne hchain.symm).2 fun h => hbehind h.2
        rw [isFailed, hfailed] at hm
        cases hm
      rw [← firstWord_append_behindWord text, htyping, List.append_nil]
      exact fun c hc => isWord_firstWord text c (List.mem_of_mem_head? hc)
    rw [matchBinding_ofText hslash hne, tokenStart_matched, hrun]
    exact startsPlain_parametersStart hslash hplain
  · rw [isFailed, matchBinding_of_noSlash hne (not_exists.mp hslash)] at hm
    cases hm

/-- The scan in front of the parameters of a command knows its token. -/
theorem spans_matchBinding (form : Form)
    (hm : ((ofText command).matchBinding bindings mode).isFailed = false) :
    let a := (((ofText command).matchBinding bindings mode).withForm form).rewind
    a.text = command.toList ∧ Reading form a.text a ∧ Spans form a := by
  have hbounds : InBounds command.toList ((ofText command).matchBinding bindings mode) :=
    (InBounds.ofText command).matchBinding bindings mode
  refine ⟨hbounds.text_eq, Reading.rewind ?_, spans_rewind ?_⟩
  · show _ ≤ List.length ((ofText command).matchBinding bindings mode).text
    rw [hbounds.text_eq]
    exact hbounds.tokenStart_le_length
  · show StartsPlain (List.drop _ ((ofText command).matchBinding bindings mode).text)
    rw [hbounds.text_eq]
    exact startsPlain_matchBinding hm

end Scan

end SlashCommand
