import SlashCommand.Proofs.Scan.Spans
import SlashCommand.Proofs.Scan.Transplant

/-!
# Continuations of a text

Let a run stand in front of a flag.  What the run has seen of the text does not go beyond the blank
behind the name of the flag, and so the run comes to the same place whatever is typed behind that
blank (`Reaches.onContinuation`, with `matchBinding_onContinuation` for the way to the first
parameter).

The run may well have read more than what is in front of it: a token that was no truth value was
read to its end before it was taken back.  Now the point of return never goes back
(`Reaches.returnPoint_le`), so the token began at the flag or before it.  A bare token ends at a
blank, and that is the blank behind the name at the latest.  A quotation is different, as it may
cover any number of blanks.  But the flag begins with a dash and not with a mark, and the scan does
not come to stand inside a quotation: when the quotation is taken back it is read again from its
beginning, and it is left behind its end only (`CaughtIn`).  So what is read beyond the flag is a bare
token (`Reaches.isBare`).
-/

namespace SlashCommand

/-- A bare token is a word. -/
theorem TokenPart.isWord {field : Field} {r raw token : List Char} {stage : ValueStage}
    (h : TokenPart field r stage raw token) (hstage : stage = .bare ∨ stage = .endBare) :
    IsWord raw := by
  cases h with
  | bare hword | endBare hword => exact hword
  | quoted | endQuoted => rcases hstage with hstage | hstage <;> cases hstage

namespace Scan

variable {form : Form} {mode : ScanMode} {s t u : Scan} {text : List Char} {i n p : Nat}

/-! ## Along a run -/

/-- The point of return does not go back. -/
theorem Reaches.returnPoint_le (h : Reaches (parameterStep form mode) s t)
    (hs : Reading form text s) : s.returnPoint ≤ t.returnPoint := by
  have hinv : Reading form text t ∧ s.returnPoint ≤ t.returnPoint := by
    refine h.preserves (fun u => Reading form text u ∧ s.returnPoint ≤ u.returnPoint) ?_
      ⟨hs, Nat.le_refl _⟩
    rintro u v ⟨hu, hle⟩ hstep
    have hpaid : Pays form u (parameterStep form mode u).scan := paid_parameterStep hu
    rw [hstep] at hpaid
    exact ⟨hu.next hstep, Nat.le_trans hle hpaid.returnPoint_le⟩
  exact hinv.2

/-- What is known of a scan and its token is known of all scans that it reaches. -/
theorem Reaches.spans (h : Reaches (parameterStep form mode) s t) (hs : Reading form text s)
    (hspans : Spans form s) : Reading form text t ∧ Spans form t := by
  refine h.preserves (fun u => Reading form text u ∧ Spans form u) ?_ ⟨hs, hspans⟩
  rintro u v ⟨hu, hspans⟩ hstep
  exact ⟨hu.next hstep, hspans.next (hu.text_eq ▸ hu) hstep⟩

/-! ## Quotations that cover a position -/

/-- A quotation begins at position `p` of the text, and it is not closed in front of position `n`.
-/
def Covers (text : List Char) (q : Quote) (p n : Nat) : Prop :=
  ∃ body r token, text.drop p = q.char :: (body ++ r) ∧ QuotedText q body token ∧
    n ≤ p + body.length

/-- The scan is caught in a quotation that begins at `p` and covers `n`: it reads it, as often as it
is taken back, until it has come past `n`. -/
inductive CaughtIn (p n : Nat) (s : Scan) : Prop
  | passed : n < s.returnPoint → CaughtIn p n s
  | start : s.state = .startParameter → s.cursor = p → CaughtIn p n s
  | value {i : Nat} : s.state = .value i .start → s.cursor = p → CaughtIn p n s
  | rest {i : Nat} : s.state = .rest i → CaughtIn p n s
  | quoted {i : Nat} {q : Quote} : s.state = .value i (.quoted q) → s.tokenStart = p →
      CaughtIn p n s
  | closed {i : Nat} {q : Quote} : s.state = .value i (.endQuoted q) → s.tokenStart = p →
      n < s.cursor → CaughtIn p n s

variable {q q' : Quote} {token : List Char}

/-- Where the quotation is closed, the cursor has passed what it covers. -/
theorem Covers.lt_cursor (h : Covers s.text q p n) (hs : Reading form s.text s)
    (hstart : s.tokenStart = p) (hclosed : ClosesQuotation q' s.typed token) : n < s.cursor := by
  obtain ⟨body, r, token', htext, hquoted, hcovered⟩ := h
  obtain ⟨body', -, htyped, hquoted'⟩ := hclosed
  have hsplit : q'.char :: (body' ++ [q'.char]) ++ s.ahead = q.char :: (body ++ r) := by
    rw [← htext, ← hstart, ← htyped]
    exact typed_append_ahead hs.tokenStart_le
  obtain ⟨hchar, hsame⟩ := List.cons.inj hsplit
  obtain rfl := Quote.char_injective hchar
  have hlength := length_typed hs
  rw [htyped] at hlength
  simp only [List.length_cons, List.length_append, List.length_nil] at hlength
  have hle := hs.tokenStart_le
  refine Nat.lt_of_not_le fun hshort => ?_
  -- the mark that closes the token would stand inside the quotation
  obtain ⟨more, rfl⟩ : body' ++ [q'.char] <+: body := by
    refine List.prefix_of_prefix_length_le ⟨s.ahead, hsame⟩ (List.prefix_append body r) ?_
    simp only [List.length_append, List.length_cons, List.length_nil]
    omega
  rw [List.append_assoc] at hquoted
  exact hquoted.not_closed hquoted'

/-- In front of a quotation a parameter is a value. -/
theorem CaughtIn.of_startParameter {r : List Char} (hstate : s.state = .startParameter)
    (hcursor : s.cursor = p) (hahead : s.ahead = q.char :: r)
    (hstep : parameterStep form mode s = .next t) : CaughtIn p n t := by
  rw [step_startParameter_cons hstate hahead q.char_ne_dash] at hstep
  split at hstep
  · obtain rfl := Step.next.inj hstep
    exact .value rfl hcursor
  · split at hstep
    · obtain rfl := Step.next.inj hstep
      exact .rest rfl
    · cases hstep

/-- Behind a quotation the scan goes back to its beginning, or it is past it. -/
theorem CaughtIn.of_valueEndMoves {field : Field} {quoted : Bool}
    (hmove : ValueEndMoves mode field quoted s t) (hstart : s.tokenStart = p)
    (hcursor : n < s.cursor) : CaughtIn p n t := by
  cases hmove with
  | rescan => exact .start rfl hstart
  | close => exact .passed hcursor

/-- A scan that is caught in a quotation stays there, or passes what it covers. -/
theorem CaughtIn.next (h : CaughtIn p n s) (hcover : Covers s.text q p n)
    (hs : Reading form s.text s) (hspans : Spans form s)
    (hstep : parameterStep form mode s = .next t) : CaughtIn p n t := by
  have hbegin (hcursor : s.cursor = p) : ∃ r, s.ahead = q.char :: r := by
    obtain ⟨body, r, -, htext, -, -⟩ := hcover
    refine ⟨body ++ r, ?_⟩
    rw [ahead, hcursor]
    exact htext
  cases h with
  | passed hlt =>
    have hle : s.returnPoint ≤ t.returnPoint := (Reaches.next .refl hstep).returnPoint_le hs
    exact .passed (Nat.lt_of_lt_of_le hlt hle)
  | start hstate hcursor =>
    obtain ⟨r, hahead⟩ := hbegin hcursor
    exact .of_startParameter hstate hcursor hahead hstep
  | value hstate hcursor =>
    obtain ⟨r, hahead⟩ := hbegin hcursor
    obtain ⟨field, -, hfield⟩ := hs.field (by rw [hstate]; rfl)
    obtain rfl := Step.next.inj ((step_start_quote hfield hstate hahead).symm.trans hstep)
    exact .quoted rfl hcursor
  | rest hstate => exact absurd hstate (state_ne_rest_of_next hstep)
  | quoted hstate hstart =>
    obtain ⟨field, -, hfield⟩ := hs.field (by rw [hstate]; rfl)
    have hopen := (hspans.tokenPart hstate rfl hfield).opensQuotation
    have hmove := quotedMoves_of_quotedStep ((parameterStep_value hfield hstate).symm.trans hstep)
    rcases hmove.quotation hs hopen with
      ⟨ht, htstart, -, hclosed⟩ | ⟨ht, htstart, -⟩
    · have htext := (hs.next hstep).text_eq
      refine .closed ht (htstart.trans hstart) ?_
      exact Covers.lt_cursor (htext ▸ hcover) (htext ▸ hs.next hstep) (htstart.trans hstart) hclosed
    · exact .quoted (ht.trans hstate) (htstart.trans hstart)
  | closed hstate hstart hcursor =>
    obtain ⟨field, -, hfield⟩ := hs.field (by rw [hstate]; rfl)
    have hmove :=
      valueEndMoves_of_valueEndStep ((parameterStep_value hfield hstate).symm.trans hstep)
    exact .of_valueEndMoves hmove hstart hcursor

/-- A run does not come to stand in front of a parameter inside a quotation. -/
theorem CaughtIn.elim (h : CaughtIn p n s) (hcover : Covers s.text q p n) (hlt : p < n)
    (hs : Reading form s.text s) (hspans : Spans form s)
    (hreach : Reaches (parameterStep form mode) s t) (hstate : t.state = .startParameter) :
    t.cursor ≠ n := by
  intro hcursor
  have hinv : (Reading form s.text t ∧ Spans form t) ∧ CaughtIn p n t := by
    refine hreach.preserves (fun u => (Reading form s.text u ∧ Spans form u) ∧ CaughtIn p n u) ?_
      ⟨⟨hs, hspans⟩, h⟩
    rintro u v ⟨⟨hu, huspans⟩, hcaught⟩ hstep
    have hu' : Reading form u.text u := hu.text_eq ▸ hu
    exact ⟨⟨hu.next hstep, huspans.next hu' hstep⟩,
      hcaught.next (hu.text_eq ▸ hcover) hu' huspans hstep⟩
  cases hinv.2 with
  | passed hpassed =>
    rw [returnPoint_of_outside (by rw [hstate]; rfl), hcursor] at hpassed
    exact Nat.lt_irrefl n hpassed
  | start _ hback => exact Nat.ne_of_lt hlt (hback.symm.trans hcursor)
  | value hvalue | rest hvalue | quoted hvalue | closed hvalue =>
    rw [hstate] at hvalue
    cases hvalue

/-! ## In front of a flag -/

variable {pre name body more w : List Char} {c : Char}

/-- A quotation that is being read covers what has been read of it but its end. -/
theorem covers_of_typed (hs : Reading form s.text s) (htyped : s.typed = q.char :: (body ++ more))
    (hquoted : QuotedText q body token) (hn : n + more.length < s.cursor) :
    Covers s.text q s.tokenStart n := by
  have hlength := length_typed hs
  rw [htyped, List.length_cons, List.length_append] at hlength
  refine ⟨body, more ++ s.ahead, token, ?_, hquoted, by omega⟩
  rw [← typed_append_ahead hs.tokenStart_le, htyped, List.cons_append, List.append_assoc]

/-- A token that begins in front of a character and goes on behind it has that character. -/
theorem mem_typed (hbegin : w ++ [c] <+: s.text) (hstart : s.tokenStart ≤ w.length)
    (hread : w.length < s.cursor) : c ∈ s.typed := by
  obtain ⟨r, hr⟩ := hbegin
  refine List.mem_iff_getElem?.mpr ⟨w.length - s.tokenStart, ?_⟩
  rw [typed, List.getElem?_drop, Nat.add_sub_cancel' hstart, List.getElem?_take_of_lt hread, ← hr,
    List.append_assoc, List.getElem?_append_right (Nat.le_refl _), Nat.sub_self]
  rfl

/-- Right behind a dash no quotation has been closed. -/
theorem lt_cursor_of_closed (h : ClosesQuotation q s.typed token)
    (hbegin : pre ++ ['-'] <+: s.text) (hread : pre.length < s.cursor) :
    pre.length + 1 < s.cursor := by
  refine Nat.lt_of_le_of_ne hread fun hend => ?_
  obtain ⟨body, -, htyped, -⟩ := h
  have htake : s.text.take s.cursor = pre ++ ['-'] := by
    obtain ⟨r, hr⟩ := hbegin
    rw [← hr, ← hend]
    exact List.take_left' List.length_append
  -- the last character would be the mark
  obtain ⟨before, hbefore⟩ : s.typed <:+ pre ++ ['-'] := htake ▸ suffix_take_cursor s
  rw [htyped, ← List.cons_append, ← List.append_assoc] at hbefore
  exact q.char_ne_dash (List.cons.inj (List.append_inj' hbefore rfl).2).1

/-- A run that comes back to a dash, to stand in front of it, has read it in a bare value. -/
theorem Reaches.isBare (hreach : Reaches (parameterStep form mode) s t)
    (hstate : t.state = .startParameter) (hcursor : t.cursor = pre.length)
    (hbegin : pre ++ ['-'] <+: s.text) (hs : Reading form s.text s) (hspans : Spans form s)
    (hread : pre.length < s.cursor) :
    s.tokenStart ≤ pre.length ∧
      ∃ i stage, s.state = .value i stage ∧ (stage = .bare ∨ stage = .endBare) := by
  have hpoint : s.returnPoint ≤ pre.length := by
    have hle := hreach.returnPoint_le hs
    rwa [returnPoint_of_outside (s := t) (by rw [hstate]; rfl), hcursor] at hle
  cases hopen : inOpenValue s.state with
  | false =>
    rw [returnPoint_of_outside hopen] at hpoint
    omega
  | true =>
    rw [returnPoint_of_inOpenValue hopen] at hpoint
    have hfree (q : Quote) (hcover : Covers s.text q s.tokenStart pre.length)
        (hcaught : CaughtIn s.tokenStart pre.length s) : False := by
      refine hcaught.elim hcover (Nat.lt_of_le_of_ne hpoint fun heq => ?_) hs hspans hreach hstate
        hcursor
      -- the quotation would begin with a dash
      obtain ⟨body, r, -, hmark, -, -⟩ := hcover
      obtain ⟨r', hr'⟩ := hbegin
      rw [heq, ← hr', List.append_assoc, List.drop_left] at hmark
      exact q.char_ne_dash (List.cons.inj hmark).1.symm
    refine ⟨hpoint, ?_⟩
    cases hvalue : s.state with
    | value i stage =>
      rw [hvalue] at hopen
      obtain ⟨field, -, hfield⟩ := hs.field (by rw [hvalue]; rfl)
      have hpart := hspans.tokenPart hvalue hopen hfield
      cases stage with
      | separator | start => cases hopen
      | bare => exact ⟨i, _, rfl, .inl rfl⟩
      | endBare => exact ⟨i, _, rfl, .inr rfl⟩
      | quoted q =>
        obtain ⟨body, htyped, hquoted⟩ := hpart.opensQuotation
        have htyped' : s.typed = q.char :: (body ++ []) := by rw [htyped, List.append_nil]
        exact (hfree q (covers_of_typed hs htyped' hquoted hread) (.quoted hvalue rfl)).elim
      | endQuoted q =>
        have hclosed := hpart.closesQuotation
        have hbehind := lt_cursor_of_closed hclosed hbegin hread
        obtain ⟨body, -, htyped, hquoted⟩ := hclosed
        exact (hfree q (covers_of_typed hs htyped hquoted hbehind)
          (.closed hvalue rfl hread)).elim
    | _ =>
      rw [hvalue] at hopen
      cases hopen

/-- A run that comes to stand in front of a dash has not read beyond the next blank. -/
theorem Reaches.cursor_lt (hreach : Reaches (parameterStep form mode) s t)
    (hstate : t.state = .startParameter) (hcursor : t.cursor = pre.length)
    (hbegin : pre ++ '-' :: name ++ [c] <+: s.text) (hc : Text.isBlank c = true)
    (hs : Reading form s.text s) (hspans : Spans form s) :
    s.cursor < (pre ++ '-' :: name ++ [c]).length := by
  have hlength : (pre ++ '-' :: name ++ [c]).length = (pre ++ '-' :: name).length + 1 :=
    List.length_append
  have hpre : (pre ++ '-' :: name).length = pre.length + (name.length + 1) := List.length_append
  rw [hlength]
  refine Nat.lt_of_not_le fun hread => ?_
  have hdash : pre ++ ['-'] <+: s.text := by
    refine List.IsPrefix.trans ⟨name ++ [c], ?_⟩ hbegin
    simp
  obtain ⟨hstart, i, stage, hvalue, hbare⟩ :=
    hreach.isBare hstate hcursor hdash hs hspans (by omega)
  have hopen : inOpenValue (.value i stage) = true := by
    rcases hbare with rfl | rfl
    · rfl
    · rfl
  obtain ⟨field, -, hfield⟩ := hs.field (by rw [hvalue]; rfl)
  have hword := (hspans.tokenPart hvalue hopen hfield).isWord hbare
  -- the blank would stand in the token
  have hblank : Text.isBlank c = false := hword c (mem_typed hbegin (by omega) hread)
  rw [hblank] at hc
  cases hc

/-- A run that comes to stand in front of a flag comes there whatever the text goes on to, if it
begins in the same way up to the blank behind the name of the flag. -/
theorem Reaches.onContinuation (hreach : Reaches (parameterStep form mode) s t)
    (hstate : t.state = .startParameter) (hcursor : t.cursor = pre.length)
    (hbegin : pre ++ '-' :: name ++ [c] <+: s.text) (htext : pre ++ '-' :: name ++ [c] <+: text)
    (hc : Text.isBlank c = true) (hs : Reading form s.text s) (hspans : Spans form s) :
    Reaches (parameterStep form mode) (s.onText text) (t.onText text) := by
  rw [← transplanted_zero, ← transplanted_zero]
  refine hreach.transplanted fun u v hu hstep hv => ?_
  obtain ⟨hreading, huspans⟩ := hu.spans hs hspans
  have hbehind : Reaches (parameterStep form mode) u t := (Reaches.next .refl hstep).trans hv
  have hbegin' : pre ++ '-' :: name ++ [c] <+: u.text := hreading.text_eq ▸ hbegin
  refine .of_isPrefix hbegin' htext ?_ ?_ fun i => state_ne_rest_of_next hstep
  · exact hbehind.cursor_lt hstate hcursor hbegin' hc (hreading.text_eq ▸ hreading) huspans
  · rw [List.getLast?_append, List.getLast?_singleton]
    rintro hslash
    obtain rfl := Option.some.inj hslash
    cases hc

/-! ## The descent -/

/-- In front of a blank the descent reads that blank only between tokens. -/
theorem cursor_lt_or_behind (hbegin : w ++ [c] <+: s.text) (hc : Text.isBlank c = true)
    (hcursor : s.cursor < (w ++ [c]).length) (hstep : descentStep mode s = .next t) :
    t.cursor < (w ++ [c]).length ∨ Behind (w ++ [c]).length t := by
  have hplain {d : Char} (hd : s.peek? = some d) (hblank : Text.isBlank d = false) :
      s.cursor + 1 < (w ++ [c]).length := by
    obtain ⟨r, hr⟩ := hbegin
    rw [List.length_append, List.length_singleton] at hcursor ⊢
    refine Nat.lt_of_le_of_ne hcursor fun hend => ?_
    have hlast : s.peek? = some c := by
      rw [peek?, ← hr, Nat.succ.inj hend]
      simp
    obtain rfl := Option.some.inj (hd.symm.trans hlast)
    rw [hblank] at hc
    cases hc
  have hcase := descentCase_of_eq hstep
  cases hcase with
  | slash _ hslash => exact .inl (hplain hslash (by decide))
  | lastToken | endToken | enter | begin => exact .inl hcursor
  | push _ hd hblank => exact .inl (hplain hd hblank)
  | gap hstate =>
    by_cases hread : s.cursor + 1 < (w ++ [c]).length
    · exact .inl hread
    · exact .inr ⟨Nat.le_of_not_lt hread, .inl hstate⟩

theorem descentStep_onContinuation {step : Step} (hbegin : w <+: s.text) (htext : w <+: text)
    (hcursor : s.cursor < w.length) (hstep : descentStep mode s = step) :
    descentStep mode (s.onText text) = step.onText text := by
  rw [← hstep, ← transplanted_zero, ← Step.map_transplanted_zero]
  exact descentStep_transplanted (getElem?_of_isPrefix hbegin htext hcursor)

/-- If the parameters begin in front of the end of what two texts have in common, up to a blank,
then the descent is the same in both. -/
theorem descend_onContinuation (hbegin : w ++ [c] <+: s.text) (htext : w ++ [c] <+: text)
    (hc : Text.isBlank c = true) (hcursor : s.cursor < (w ++ [c]).length)
    (hstart : (descend mode s).tokenStart < (w ++ [c]).length) :
    descend mode (s.onText text) = (descend mode s).onText text := by
  induction s using run_induction (@descentMeasure_lt mode) with
  | next s s' hstep ih =>
    have hmove := descentStep_onContinuation hbegin htext hcursor hstep
    have hrun : descend mode s = descend mode s' := run_of_next hstep
    have hrun' : descend mode (s.onText text) = descend mode (s'.onText text) := run_of_next hmove
    have hsame : s'.text = s.text := (descentCase_of_eq hstep).sameInput.text
    rw [hrun] at hstart
    rw [hrun, hrun']
    rcases cursor_lt_or_behind hbegin hc hcursor hstep with hcursor' | hbehind
    · exact ih (hsame ▸ hbegin) hcursor' hstart
    · exact absurd hstart (Nat.not_lt.mpr (hbehind.descend mode))
  | stop s s' hstep =>
    have hmove := descentStep_onContinuation hbegin htext hcursor hstep
    rw [descend, descend, run_of_stop hstep, run_of_stop hmove]
  | fail s s' e hstep =>
    have hmove := descentStep_onContinuation hbegin htext hcursor hstep
    rw [descend, descend, run_of_fail hstep, run_of_fail hmove]
    rfl

/-! ## Whole commands -/

variable {typed command : String} {bindings : List Binding}

theorem matched_onText (mode : ScanMode) (s : Scan) (text : List Char) :
    matched mode (s.onText text) = (matched mode s).onText text := by
  unfold matched
  rw [apply_ite (onText · text)]
  rfl

/-- If the parameters begin in front of the end of what two commands have in common, up to a blank,
then they begin in the same place of both. -/
theorem matchBinding_onContinuation (hbegin : w ++ [c] <+: typed.toList)
    (hcommand : w ++ [c] <+: command.toList) (hc : Text.isBlank c = true)
    (hstart : ((ofText typed).matchBinding bindings mode).tokenStart < (w ++ [c]).length) :
    (ofText command).matchBinding bindings mode =
      ((ofText typed).matchBinding bindings mode).onText command.toList := by
  by_cases hne : bindings = []
  · subst hne
    rfl
  · rw [matchBinding_eq_matched hne, tokenStart_matched] at hstart
    rw [matchBinding_eq_matched hne, matchBinding_eq_matched hne, ← matched_onText]
    refine congrArg (matched mode) ?_
    have hpositive : 0 < (w ++ [c]).length := Nat.lt_of_le_of_lt (Nat.zero_le _) hstart
    exact descend_onContinuation (s := { ofText typed with candidates := bindings }) hbegin hcommand
      hc hpositive hstart

/-- Let a run of one command stand in front of a flag.  Every command that begins in the same way,
up to the blank behind the name of the flag, is read from there on. -/
theorem parseForm_onContinuation
    (hm : ((ofText typed).matchBinding bindings mode).isFailed = false)
    (hreach : Reaches (parameterStep form mode)
      (((ofText typed).matchBinding bindings mode).withForm form).rewind s)
    (hstate : s.state = .startParameter) (hcursor : s.cursor = pre.length)
    (hbegin : pre ++ '-' :: name ++ [c] <+: typed.toList)
    (hcommand : pre ++ '-' :: name ++ [c] <+: command.toList) (hc : Text.isBlank c = true) :
    (((ofText command).matchBinding bindings mode).withForm form).parseForm mode =
      readForm form mode (s.onText command.toList) := by
  obtain ⟨htext, hreading, hspans⟩ := spans_matchBinding form hm
  have hstart : ((ofText typed).matchBinding bindings mode).tokenStart ≤ pre.length := by
    have hle := hreach.returnPoint_le hreading
    rw [returnPoint_of_outside rfl, returnPoint_of_outside (by rw [hstate]; rfl), hcursor] at hle
    exact hle
  have hmatch : (ofText command).matchBinding bindings mode =
      ((ofText typed).matchBinding bindings mode).onText command.toList := by
    refine matchBinding_onContinuation hbegin hcommand hc ?_
    simp only [List.length_append, List.length_cons]
    omega
  have hsame := hreach.onContinuation hstate hcursor (htext ▸ hbegin) hcommand hc hreading hspans
  have hunfailed : ¬ (((ofText typed).matchBinding bindings mode).onText command.toList).isFailed =
      true := Bool.eq_false_iff.mp hm
  rw [hmatch, parseForm_withForm, if_neg hunfailed]
  exact run_of_reaches hsame

end Scan

end SlashCommand
