import SlashCommand.Proofs.Binding.Validation
import SlashCommand.Proofs.Scan.Modes
import SlashCommand.Proofs.Scan.Reach
import SlashCommand.Proofs.Scan.Values

/-!
# Tokens that are typed

Where a token begins, its text says where it ends: no other token begins with the same text
(`TokenText.eq_of_append`).  While a command is typed a token may not be complete yet; `TokenPart`
and `ElementPart` say what of it has been read in each state.

`Replaces` is the condition under which a text may take the place of what is ahead of a scan in
front of a token.  The scan looks at the first character only, to tell values from flags, and where
truth values may be left out it looks at the whole token.
-/

namespace SlashCommand

variable {q : Quote} {field field' : Field} {body body' w w' r r' raw text token token' : List Char}
  {c : Char}

/-! ## Where a token ends -/

theorem Quote.char_injective {q q' : Quote} (h : q.char = q'.char) : q = q' := by
  cases q with
  | double =>
    cases q' with
    | double => rfl
    | tick => cases h
  | tick =>
    cases q' with
    | double => cases h
    | tick => rfl

theorem Quote.char_ne_backslash (q : Quote) : q.char ≠ '\\' := by
  cases q with
  | double => decide
  | tick => decide

theorem Quote.char_ne_dash (q : Quote) : q.char ≠ '-' := by
  cases q with
  | double => decide
  | tick => decide

theorem Quote.isBlank_char (q : Quote) : Text.isBlank q.char = false := by
  cases q with
  | double => rfl
  | tick => rfl

theorem QuotedText.append (h : QuotedText q body token) (h' : QuotedText q body' token') :
    QuotedText q (body ++ body') (token ++ token') := by
  induction h with
  | nil => exact h'
  | plain hclose hescape _ ih => exact .plain hclose hescape ih
  | escaped hq _ ih => exact .escaped hq ih

/-- A quotation ends at the first mark that is not escaped. -/
theorem QuotedText.eq_of_append (h : QuotedText q body token) (h' : QuotedText q body' token')
    (heq : body ++ q.char :: r = body' ++ q.char :: r') : body = body' ∧ token = token' := by
  induction h generalizing body' token' with
  | nil =>
    cases h' with
    | nil => exact ⟨rfl, rfl⟩
    | plain hclose _ _ => exact absurd (List.cons.inj heq).1.symm hclose
    | escaped _ _ => exact absurd (List.cons.inj heq).1 q.char_ne_backslash
  | plain hclose hescape _ ih =>
    cases h' with
    | nil => exact absurd (List.cons.inj heq).1 hclose
    | plain _ _ h' =>
      obtain ⟨rfl, hrest⟩ := List.cons.inj heq
      obtain ⟨rfl, rfl⟩ := ih h' hrest
      exact ⟨rfl, rfl⟩
    | escaped hq _ => exact absurd ⟨(List.cons.inj heq).1, hq⟩ hescape
  | escaped hq _ ih =>
    cases h' with
    | nil => exact absurd (List.cons.inj heq).1.symm q.char_ne_backslash
    | plain _ hescape _ => exact absurd ⟨(List.cons.inj heq).1.symm, hq⟩ hescape
    | escaped _ h' =>
      obtain ⟨rfl, hrest⟩ := List.cons.inj (List.cons.inj heq).2
      obtain ⟨rfl, rfl⟩ := ih h' hrest
      exact ⟨rfl, rfl⟩

/-- A mark that is not escaped is not inside a quotation. -/
theorem QuotedText.not_closed (h : QuotedText q (body ++ q.char :: r) token)
    (h' : QuotedText q body token') : False := by
  have heq : (body ++ q.char :: r) ++ q.char :: [] = body ++ q.char :: (r ++ [q.char]) := by simp
  have hlength := congrArg List.length (h.eq_of_append h' heq).1
  simp at hlength

/-- The characters between ticks are taken as they are. -/
theorem QuotedText.eq_of_tick (h : QuotedText .tick body token) :
    body = token ∧ ∀ c ∈ token, c ≠ Quote.tick.char := by
  induction h with
  | nil => exact ⟨rfl, fun _ h => absurd h List.not_mem_nil⟩
  | plain hclose _ _ ih =>
    obtain ⟨rfl, hchars⟩ := ih
    exact ⟨rfl, List.forall_mem_cons.mpr ⟨hclose, hchars⟩⟩
  | escaped hq _ _ => cases hq

/-- Between quotation marks a text without marks and backslashes is taken as it is. -/
theorem quotedText_self (h : ∀ c ∈ token, c ≠ q.char ∧ ¬ (c = '\\' ∧ q = .double)) :
    QuotedText q token token := by
  induction token with
  | nil => exact .nil
  | cons c token ih =>
    obtain ⟨hclose, hescape⟩ := h c List.mem_cons_self
    exact .plain hclose hescape (ih fun d hd => h d (List.mem_cons_of_mem c hd))

theorem firstWord_append (hw : IsWord w) (hr : StartsBlank r) : firstWord (w ++ r) = w := by
  obtain ⟨gap, rest, rfl, hgap, hplain⟩ := exists_gap r
  refine (parts_append hw hgap ?_ hplain).1
  rintro rfl
  exact eq_nil_of_startsBlank hr hplain

/-- A text begins with one token at most, whichever fields take it. -/
theorem TokenText.eq_of_append (h : TokenText field w token) (h' : TokenText field' w' token')
    (hr : StartsBlank r) (hr' : StartsBlank r') (heq : w ++ r = w' ++ r') :
    w = w' ∧ token = token' := by
  cases h with
  | @bare c w hc hw =>
    cases h' with
    | @bare d w' hd hw' =>
      obtain ⟨rfl, hrest⟩ := List.cons.inj heq
      have hword : w = w' := by
        rw [← firstWord_append hw hr, ← firstWord_append hw' hr']
        exact congrArg firstWord hrest
      subst hword
      exact ⟨rfl, rfl⟩
    | quoted h' =>
      obtain ⟨-, -⟩ := h'
      exact absurd (List.cons.inj heq).1 (hc.1 _)
  | quoted h =>
    obtain ⟨hbody, hquoted⟩ := h
    cases h' with
    | bare hd _ => exact absurd (List.cons.inj heq).1.symm (hd.1 _)
    | quoted h' =>
      obtain ⟨hbody', hquoted'⟩ := h'
      simp only [List.cons_append, List.append_assoc, List.nil_append, List.cons.injEq] at heq
      obtain ⟨hchar, hrest⟩ := heq
      obtain rfl := Quote.char_injective hchar
      obtain ⟨rfl, rfl⟩ := hquoted.eq_of_append hquoted' hrest
      exact ⟨rfl, rfl⟩

theorem TokenText.exists_cons (h : TokenText field w token) :
    ∃ c r, w = c :: r ∧ Text.isBlank c = false := by
  cases h with
  | bare hc _ => exact ⟨_, _, rfl, hc.2.2⟩
  | quoted h =>
    obtain ⟨q, r, rfl⟩ := h.exists_cons
    exact ⟨q.char, r, rfl, q.isBlank_char⟩

/-- Fields take the same tokens, except that an opening bracket may begin a list. -/
theorem TokenText.of_single (h : TokenText field w token) (hsingle : field'.multiselect = false) :
    TokenText field' w token := by
  cases h with
  | bare hc hw =>
    refine .bare ⟨hc.1, ?_, hc.2.2⟩ hw
    rintro ⟨-, hmulti⟩
    rw [hsingle] at hmulti
    cases hmulti
  | quoted h => exact .quoted h

/-! ## What has been read of a token -/

/-- What has been read of a token outside brackets, in front of the text `r`. -/
inductive TokenPart (field : Field) (r : List Char) : ValueStage → List Char → List Char → Prop
  | bare {w : List Char} : IsWord w → (∀ c ∈ (w ++ r).head?, BeginsBare field c) →
      TokenPart field r .bare w w
  | endBare {w : List Char} : IsWord w → (∀ c ∈ (w ++ r).head?, BeginsBare field c) →
      StartsBlank r → TokenPart field r .endBare w w
  | quoted {q : Quote} {body token : List Char} : QuotedText q body token →
      TokenPart field r (.quoted q) (q.char :: body) token
  | endQuoted {q : Quote} {body token : List Char} : body ≠ [] → QuotedText q body token →
      TokenPart field r (.endQuoted q) (q.char :: (body ++ [q.char])) token

/-- What has been read of an element of a list, in front of the text `r`. -/
inductive ElementPart (r : List Char) : ListStage → List Char → List Char → Prop
  | bare {w : List Char} : (∀ c ∈ w, IsElementChar c) →
      (∀ c ∈ (w ++ r).head?, ¬ Scan.EndsElement c) → ElementPart r .bare w w
  | quoted {q : Quote} {body token : List Char} : QuotedText q body token →
      ElementPart r (.quoted q) (q.char :: body) token
  | ended {text token : List Char} : ElementText text token → ElementPart r .elementEnd text token

/-- One more character of a bare token is read. -/
theorem TokenPart.push (h : TokenPart field (c :: r) .bare raw token)
    (hc : Text.isBlank c = false) : TokenPart field r .bare (raw ++ [c]) (token ++ [c]) := by
  cases h with
  | bare hw hbegin =>
    refine .bare ?_ (by simpa using hbegin)
    intro d hd
    rcases List.mem_append.mp hd with hd | hd
    · exact hw d hd
    · rwa [List.mem_singleton.mp hd]

theorem TokenPart.complete (h : TokenPart field r .bare raw token) (hr : StartsBlank r) :
    TokenPart field r .endBare raw token := by
  cases h with
  | bare hw hbegin => exact .endBare hw hbegin hr

/-- One more character of a bare element is read. -/
theorem ElementPart.push (h : ElementPart (c :: r) .bare raw token) (hc : IsElementChar c) :
    ElementPart r .bare (raw ++ [c]) (token ++ [c]) := by
  cases h with
  | bare hw hbegin =>
    refine .bare ?_ (by simpa using hbegin)
    intro d hd
    rcases List.mem_append.mp hd with hd | hd
    · exact hw d hd
    · rwa [List.mem_singleton.mp hd]

theorem ElementPart.complete (h : ElementPart (c :: r) .bare raw token)
    (hc : Scan.EndsElement c) : ElementPart (c :: r) .elementEnd raw token := by
  cases h with
  | bare hw hbegin =>
    refine .ended (.bare ?_ hw)
    rintro rfl
    exact hbegin c rfl hc

namespace Scan

variable {form : Form} {mode : ScanMode} {stage : ValueStage}

/-- A text begins with a token that is no value of a boolean field. -/
structure Rejected (mode : ScanMode) (field : Field) (text : List Char) : Prop where
  bool : field.type = .bool
  token : ∃ w token r, text = w ++ r ∧ StartsBlank r ∧ TokenText field w token ∧
    acceptsBool mode (String.ofList token) = false

theorem acceptsBool_execute (h : acceptsBool .autocomplete (String.ofList token) = false) :
    acceptsBool .execute (String.ofList token) = false := by
  refine Bool.eq_false_iff.mpr fun haccepts => ?_
  rw [acceptsBool_autocomplete haccepts] at h
  cases h

/-- If a boolean field rejects the token that is typed, it rejects what has been read of it.  A
backslash at the end of the text may still be missing from that. -/
theorem Rejected.of_tokenPart (h : Rejected .autocomplete field' (text ++ r))
    (hpart : TokenPart field r stage text token)
    (hr : r = [] ∨ stage = .quoted .double ∧ r = ['\\']) :
    acceptsBool .autocomplete (String.ofList token) = false := by
  obtain ⟨w, token', r', htext, hr', htoken, hrejected⟩ := h.token
  have hsame {text' : List Char} (hread : TokenText field text' token) (h' : text' = text)
      (hnil : r = []) : acceptsBool .autocomplete (String.ofList token) = false := by
    subst h' hnil
    obtain ⟨-, rfl⟩ := hread.eq_of_append htoken startsBlank_nil hr' htext
    exact hrejected
  have hword (hw : IsWord token) (hc : ∀ c ∈ (token ++ r).head?, BeginsBare field c)
      (htext' : token = text) (hnil : r = []) :
      acceptsBool .autocomplete (String.ofList token) = false := by
    cases token with
    | nil =>
      obtain ⟨c, w', rfl, -⟩ := htoken.exists_cons
      rw [← htext', hnil] at htext
      cases htext
    | cons c v =>
      exact hsame (.bare (hc c rfl) fun d hd => hw d (List.mem_cons_of_mem c hd)) htext' hnil
  cases hpart with
  | bare hw hc => exact hword hw hc rfl (hr.resolve_right fun h => nomatch h.1)
  | endBare hw hc _ => exact hword hw hc rfl (hr.resolve_right fun h => nomatch h.1)
  | @endQuoted q body token hbody hquoted =>
    exact hsame (.quoted (.mk hbody hquoted)) rfl (hr.resolve_right fun h => nomatch h.1)
  | @quoted q body token hquoted =>
    -- the token that is rejected would have to be closed
    cases htoken with
    | bare hd _ => exact absurd (List.cons.inj htext).1.symm (hd.1 _)
    | quoted htoken =>
      cases htoken with
      | @mk q' body' token' _ hquoted' =>
        simp only [List.cons_append, List.append_assoc, List.nil_append, List.cons.injEq] at htext
        obtain ⟨hchar, hrest⟩ := htext
        obtain rfl := Quote.char_injective hchar
        rcases hr with rfl | ⟨hdouble, rfl⟩
        · rw [List.append_nil] at hrest
          subst hrest
          exact (hquoted.not_closed hquoted').elim
        · rcases List.eq_nil_or_concat r' with rfl | ⟨r', d, rfl⟩
          · have hlast := congrArg List.getLast? hrest
            simp at hlast
            exact absurd hlast.symm q.char_ne_backslash
          · have hbody : body = body' ++ q.char :: r' := by
              rw [List.concat_eq_append, ← List.cons_append, ← List.append_assoc] at hrest
              exact List.append_inj_left' hrest rfl
            subst hbody
            exact (hquoted.not_closed hquoted').elim

/-! ## Putting another text ahead -/

/-- On its way from `a`, a scan for typing is in a state of the given kind at the position. -/
def Passes (form : Form) (a : Scan) (position : Nat) (kind : ScanState → Prop) : Prop :=
  ∃ u, Reaches (parameterStep form .autocomplete) a u ∧ u.cursor = position ∧ kind u.state

/-- A parameter may begin here. -/
def AwaitsParameter (state : ScanState) : Prop :=
  state = .startParameter ∨ state = .parameterSeparator

/-- The value of a flag may begin here, or an equals sign in front of it. -/
def AwaitsFlagValue (state : ScanState) : Prop := ∃ i e, state = .value i (.separator e)

/-- A truth value may begin here. -/
def AwaitsTruth (form : Form) (state : ScanState) : Prop :=
  ∃ i field, state = .value i .start ∧ form.fields[i]? = some field ∧ field.type = .bool

/-- The character has a meaning of its own at the position: a dash begins a flag where a parameter
may begin, and an equals sign in front of the value of a flag belongs to the flag. -/
def IsMark (form : Form) (a : Scan) (position : Nat) (c : Char) : Prop :=
  c = '-' ∧ Passes form a position AwaitsParameter ∨
    c = '=' ∧ Passes form a position AwaitsFlagValue

/-- The text can take the place of what is ahead of a scan at the position, in front of a token.  It
begins with a mark only where what is ahead does, and no boolean field takes it that rejected what
is ahead. -/
structure Replaces (form : Form) (a : Scan) (position : Nat) (ahead text : List Char) : Prop where
  plain : ∃ c r, text = c :: r ∧ Text.isBlank c = false
  marks : ∀ c ∈ text.head?, IsMark form a position c → ahead = [] ∨ ahead.head? = some c
  rejected : Passes form a position (AwaitsTruth form) → ∀ field ∈ form.fields,
    Rejected .autocomplete field ahead → Rejected .execute field text

variable {a : Scan} {position : Nat}

/-- Behind a character with which no truth value begins, anything may be exchanged. -/
theorem Replaces.of_plain (hform : form.defect? = none) (hblank : Text.isBlank c = false)
    (hquote : ∀ q : Quote, c ≠ q.char) (htrue : c ≠ 't') (hfalse : c ≠ 'f') (r text : List Char) :
    Replaces form a position (c :: r) (c :: text) := by
  refine ⟨⟨c, text, rfl, hblank⟩, fun d hd _ => .inr hd, fun _ field hfield hrejected => ?_⟩
  obtain ⟨w, r', rfl, hw, hr'⟩ := exists_word text
  refine ⟨hrejected.bool, c :: w, c :: w, r', rfl, hr', .bare ⟨hquote, ?_, hblank⟩ hw, ?_⟩
  · rintro ⟨-, hmulti⟩
    rw [Form.multiselect_of_bool hform hfield hrejected.bool] at hmulti
    cases hmulti
  · have hne (literal : String) (d : Char) (l : List Char) (hliteral : literal.toList = d :: l)
        (hd : c ≠ d) : (String.ofList (c :: w) == literal) = false := by
      rw [beq_eq_false_iff_ne]
      intro heq
      have hlist := congrArg String.toList heq
      rw [String.toList_ofList, hliteral] at hlist
      exact hd (List.cons.inj hlist).1
    show (_ || _) = false
    rw [hne "true" 't' _ rfl htrue, hne "false" 'f' _ rfl hfalse]
    rfl

/-- Behind a complete token anything may be exchanged that lets it be complete. -/
theorem Replaces.of_token (h : TokenText field w token) (hr : StartsBlank r)
    (htext : StartsBlank text) (hform : form.defect? = none) :
    Replaces form a position (w ++ r) (w ++ text) := by
  obtain ⟨c, w', rfl, hblank⟩ := h.exists_cons
  refine ⟨⟨c, _, rfl, hblank⟩, fun d hd _ => .inr hd, fun _ f hf hrejected => ?_⟩
  obtain ⟨v, token', r', heq, hr', htoken, hnot⟩ := hrejected.token
  obtain ⟨-, rfl⟩ := h.eq_of_append htoken hr hr' heq
  exact ⟨hrejected.bool, _, _, text, rfl, htext,
    h.of_single (Form.multiselect_of_bool hform hf hrejected.bool), acceptsBool_execute hnot⟩

/-! ## Tokens that are taken back -/

variable {i k : Nat} {values : Values} {s : Scan}

theorem valueEndStep_reject {quoted : Bool} (hr : StartsBlank s.ahead) (hbool : field.type = .bool)
    (hnot : acceptsBool mode s.token = false) :
    valueEndStep mode field quoted s = .next (s.rescan field) := by
  have hfilter : (s.peek?.filter fun c => quoted && !Text.isBlank c) = none := by
    rw [Option.filter_eq_none_iff, peek?_eq_head?]
    intro c hc
    simp [hr c hc]
  simp only [valueEndStep, hfilter]
  rw [if_pos ⟨hbool, by rw [hnot]; rfl⟩]

/-- A bare token that is no truth value is taken back when it is complete. -/
theorem outcome_rescan_bare (hfield : form.fields[i]? = some field) (hbool : field.type = .bool)
    (hw : IsWord w) (hr : StartsBlank r) (hstate : s.state = .value i .bare)
    (hahead : s.ahead = w ++ r) (hnot : acceptsBool .execute (s.token ++ String.ofList w) = false) :
    outcome form s = outcome form (s.rescan field) := by
  have hbehind : StartsBlank (s.pushAll w).ahead := (ahead_pushAll hahead).symm ▸ hr
  have hback : parameterStep form .execute ((s.pushAll w).goto (.value i .endBare)) =
      .next (s.rescan field) := by
    rw [parameterStep_value hfield rfl]
    exact valueEndStep_reject hbehind hbool hnot
  rw [outcome_congr (readForm_bare hfield hw hr hstate hahead), outcome_of_next hback]

/-- A quoted token that is no truth value is taken back at its closing mark. -/
theorem outcome_rescan_quoted (hfield : form.fields[i]? = some field) (hbool : field.type = .bool)
    (h : QuotedText q body token) (hr : StartsBlank r) (hstate : s.state = .value i (.quoted q))
    (hahead : s.ahead = body ++ q.char :: r) (hinside : s.cursor + body.length ≠ s.tokenStart + 1)
    (hnot : acceptsBool .execute (s.token ++ String.ofList token) = false) :
    outcome form s = outcome form (s.rescan field) := by
  have hstep {t : Scan} (ht : t.state = .value i (.quoted q)) : parameterStep form .execute t =
      quotedStep .execute q (.value i (.endQuoted q)) t := parameterStep_value hfield ht
  have hpush (u : Scan) (c : Char) (cs : List Char) :
      (u.push c).token ++ String.ofList cs = u.token ++ String.ofList (c :: cs) := by
    apply String.toList_inj.mp
    simp [push]
  induction h generalizing s with
  | nil =>
    have hclose := (hstep hstate).trans (quotedStep_close hahead)
    have hinside' : ¬ s.cursor = s.tokenStart + 1 := hinside
    rw [if_neg hinside'] at hclose
    have hback : parameterStep form .execute (s.advance.goto (.value i (.endQuoted q))) =
        .next (s.rescan field) := by
      rw [parameterStep_value hfield rfl]
      refine valueEndStep_reject ?_ hbool ?_
      · exact (ahead_advance hahead).symm ▸ hr
      · rwa [String.ofList_nil, String.append_empty] at hnot
    rw [outcome_of_next hclose, outcome_of_next hback]
  | @plain c body token hclose hescape _ ih =>
    have hnext := (hstep hstate).trans (quotedStep_plain hahead hclose hescape)
    rw [outcome_of_next hnext]
    refine ih hstate (ahead_push hahead) ?_ (hpush s c token ▸ hnot)
    rw [List.length_cons] at hinside
    show s.cursor + 1 + body.length ≠ s.tokenStart + 1
    omega
  | @escaped c body token hq _ ih =>
    have hnext := (hstep hstate).trans (quotedStep_escape hq hahead)
    rw [outcome_of_next hnext]
    refine ih hstate (ahead_push (ahead_advance hahead)) ?_ (hpush s.advance c token ▸ hnot)
    rw [List.length_cons, List.length_cons] at hinside
    show s.cursor + 1 + 1 + body.length ≠ s.tokenStart + 1
    omega

/-- In front of a token that is no truth value, a boolean field is true, and the token is read as
the next parameter. -/
theorem outcome_skipBool (hfield : form.fields[i]? = some field) (h : Rejected .execute field text)
    (hs : Stands (.value i .start) k values text s) :
    ∃ t, Stands .startParameter k (values.insert field.name (.scalar "true")) text t ∧
      outcome form s = outcome form t := by
  obtain ⟨w, token, r, rfl, hr, htoken, hnot⟩ := h.token
  have hback : Stands .startParameter k (values.insert field.name (.scalar "true")) (w ++ r)
      (s.beginToken.rescan field) := by
    refine ⟨rfl, hs.positionals_eq, ?_, hs.ahead_eq⟩
    show s.values.insert _ _ = _
    rw [hs.values_eq]
  refine ⟨_, hback, ?_⟩
  cases htoken with
  | @bare c w hc hw =>
    rw [outcome_of_next (step_start_bare hfield hs.state_eq hs.ahead_eq hc)]
    refine outcome_rescan_bare hfield h.bool (List.forall_mem_cons.mpr ⟨hc.2.2, hw⟩) hr rfl
      hs.ahead_eq ?_
    show acceptsBool .execute ("" ++ String.ofList (c :: w)) = false
    rwa [String.empty_append]
  | quoted hquotation =>
    cases hquotation with
    | @mk q body token hbody hquoted =>
      have hahead : s.ahead = q.char :: (body ++ q.char :: r) := by
        rw [hs.ahead_eq]
        simp
      rw [outcome_of_next (step_start_quote hfield hs.state_eq hahead)]
      refine outcome_rescan_quoted hfield h.bool hquoted hr rfl
        (ahead_advance (s := s.beginToken) hahead) ?_ ?_
      · have hlength := List.length_pos_iff.mpr hbody
        show s.cursor + 1 + body.length ≠ s.cursor + 1
        omega
      · show acceptsBool .execute ("" ++ String.ofList token) = false
        rwa [String.empty_append]

end Scan

end SlashCommand
