import SlashCommand.Proofs.Scan.Steps

/-!
# How a scan goes on

`Moves` is the second phase of a scan as a transition relation: one case for each way in which a
step goes on, with what must be ahead for it and with the scan that it leads to.  The stages of a
value, those of a list, quotations and the ends of values have relations of their own.

`moves_of_parameterStep` says that a step goes on in no other way.  What every step keeps is proved
from it by cases, and no step is opened for it.
-/

namespace SlashCommand

namespace Scan

variable {form : Form} {mode : ScanMode} {field : Field} {s t : Scan} {i : Nat} {q : Quote}

/-! ## Moves -/

/-- A move in a quotation, which leads to the state `closed` behind the closing mark. -/
inductive QuotedMoves (q : Quote) (closed : ScanState) (s : Scan) : Scan → Prop
  | close {r : List Char} : s.ahead = q.char :: r → s.cursor ≠ s.tokenStart + 1 →
      QuotedMoves q closed s (s.advance.goto closed)
  | escape {c : Char} {r : List Char} : q = .double → s.ahead = '\\' :: c :: r →
      QuotedMoves q closed s (s.advance.push c)
  | plain {c : Char} {r : List Char} : s.ahead = c :: r → c ≠ q.char →
      ¬ (c = '\\' ∧ q = .double) → QuotedMoves q closed s (s.push c)

/-- A move behind a value: the token is read once more, or it is given to the field. -/
inductive ValueEndMoves (mode : ScanMode) (field : Field) (quoted : Bool) (s : Scan) : Scan → Prop
  | rescan : (quoted = true → StartsBlank s.ahead) → field.type = .bool →
      acceptsBool mode s.token = false → ValueEndMoves mode field quoted s (s.rescan field)
  | close {c : Char} {r : List Char} : s.ahead = c :: r → (quoted = true → Text.isBlank c = true) →
      (quoted = false → s.token ≠ "") →
      (field.type = .bool → acceptsBool mode s.token = true) →
      ValueEndMoves mode field quoted s ((s.closeValue field).goto .parameterSeparator)

/-- A move in a value outside brackets. -/
inductive ValueMoves (mode : ScanMode) (field : Field) (i : Nat) (s : Scan) :
    ValueStage → Scan → Prop
  | separatorEnd {equalsSeen : Bool} : mode = .execute → s.ahead = [] →
      ValueMoves mode field i s (.separator equalsSeen) (s.markToken.goto (.value i .start))
  | equals {r : List Char} : s.ahead = '=' :: r →
      ValueMoves mode field i s (.separator false)
        (s.markToken.advance.goto (.value i (.separator true)))
  | gap {equalsSeen : Bool} {c : Char} {r : List Char} : s.ahead = c :: r →
      Text.isBlank c = true →
      ValueMoves mode field i s (.separator equalsSeen) s.markToken.advance
  | begin {equalsSeen : Bool} {c : Char} {r : List Char} : s.ahead = c :: r → c ≠ '=' →
      Text.isBlank c = false →
      ValueMoves mode field i s (.separator equalsSeen) (s.markToken.goto (.value i .start))
  | startEnd : s.ahead = [] →
      ValueMoves mode field i s .start (s.beginToken.goto (.value i .bare))
  | quote {q : Quote} {r : List Char} : s.ahead = q.char :: r →
      ValueMoves mode field i s .start (s.beginToken.advance.goto (.value i (.quoted q)))
  | bracket {r : List Char} : s.ahead = '[' :: r → field.multiselect = true →
      ValueMoves mode field i s .start
        ((s.beginToken.assign field.name (.list [])).advance.goto (.list i .start))
  | bare {c : Char} {r : List Char} : s.ahead = c :: r → BeginsBare field c →
      ValueMoves mode field i s .start (s.beginToken.goto (.value i .bare))
  | push {c : Char} {r : List Char} : s.ahead = c :: r → Text.isBlank c = false →
      ValueMoves mode field i s .bare (s.push c)
  | complete : StartsBlank s.ahead →
      ValueMoves mode field i s .bare (s.goto (.value i .endBare))
  | quoted {q : Quote} {t : Scan} : QuotedMoves q (.value i (.endQuoted q)) s t →
      ValueMoves mode field i s (.quoted q) t
  | endBare {t : Scan} : ValueEndMoves mode field false s t →
      ValueMoves mode field i s .endBare t
  | endQuoted {q : Quote} {t : Scan} : ValueEndMoves mode field true s t →
      ValueMoves mode field i s (.endQuoted q) t

/-- A move in a bracketed list. -/
inductive ListMoves (field : Field) (i : Nat) (s : Scan) : ListStage → Scan → Prop
  | gap {stage : ListStage} {c : Char} {r : List Char} :
      stage = .start ∨ stage = .next ∨ stage = .separator → s.ahead = c :: r →
      Text.isBlank c = true → ListMoves field i s stage s.advance
  | close {stage : ListStage} {r : List Char} : stage = .start ∨ stage = .separator →
      s.ahead = ']' :: r → ListMoves field i s stage (s.advance.goto (.listEnd i))
  | begin {stage : ListStage} {c : Char} {r : List Char} : stage = .start ∨ stage = .next →
      s.ahead = c :: r → Text.isBlank c = false → c ≠ ']' → (stage = .next → c ≠ ',') →
      ListMoves field i s stage (s.goto (.list i .elementStart))
  | startEnd : s.ahead = [] →
      ListMoves field i s .elementStart (s.beginToken.goto (.list i .bare))
  | quote {q : Quote} {r : List Char} : s.ahead = q.char :: r →
      ListMoves field i s .elementStart (s.beginToken.advance.goto (.list i (.quoted q)))
  | bare {c : Char} {r : List Char} : s.ahead = c :: r → (∀ q : Quote, c ≠ q.char) → c ≠ ',' →
      c ≠ ']' → ListMoves field i s .elementStart (s.beginToken.goto (.list i .bare))
  | push {c : Char} {r : List Char} : s.ahead = c :: r → IsElementChar c →
      ListMoves field i s .bare (s.push c)
  | complete {c : Char} {r : List Char} : s.ahead = c :: r →
      Text.isBlank c = true ∨ c = ',' ∨ c = ']' →
      ListMoves field i s .bare (s.goto (.list i .elementEnd))
  | quoted {q : Quote} {t : Scan} : QuotedMoves q (.list i .elementEnd) s t →
      ListMoves field i s (.quoted q) t
  | append : ListMoves field i s .elementEnd
      { s with
        values := appendTo field.name s.token s.values, token := "", state := .list i .separator }
  | comma {r : List Char} : s.ahead = ',' :: r →
      ListMoves field i s .separator (s.advance.goto (.list i .next))

/-- A move of the second phase. -/
inductive Moves (form : Form) (mode : ScanMode) (s : Scan) : Scan → Prop
  | dash {r : List Char} : s.state = .startParameter → s.ahead = '-' :: r →
      Moves form mode s (s.advance.goto .flagDash)
  | positional {c : Char} {r : List Char} {i : Nat} : s.state = .startParameter →
      s.ahead = c :: r → c ≠ '-' →
      form.fields.findIdx? (·.position == ((s.positionals + 1 : Nat) : Int)) = some i →
      Moves form mode s (s.countPositional.goto (.value i .start))
  | rest {c : Char} {r : List Char} {i : Nat} : s.state = .startParameter → s.ahead = c :: r →
      c ≠ '-' → (form.fields.findIdx? fun f => f.isRest && !s.values.contains f.name) = some i →
      Moves form mode s (s.countPositional.beginToken.goto (.rest i))
  | gap {c : Char} {r : List Char} : s.state = .parameterSeparator → s.ahead = c :: r →
      Text.isBlank c = true → Moves form mode s s.markToken.advance
  | begin {c : Char} {r : List Char} : s.state = .parameterSeparator → s.ahead = c :: r →
      Text.isBlank c = false → Moves form mode s (s.markToken.goto .startParameter)
  | secondDash {r : List Char} : s.state = .flagDash → s.ahead = '-' :: r →
      Moves form mode s (s.advance.beginToken.goto .flagName)
  | singleDash : s.state = .flagDash → s.ahead.head? ≠ some '-' →
      Moves form mode s (s.beginToken.goto .flagName)
  | name {c : Char} {r : List Char} : s.state = .flagName → s.ahead = c :: r → IsNameChar c →
      Moves form mode s (s.push c)
  | flag {i : Nat} : s.state = .flagName →
      (s.ahead = [] ∧ mode = .execute ∨ ∃ c r, s.ahead = c :: r ∧ ¬ IsNameChar c) →
      (form.fields.findIdx? fun f => Text.eqIgnoreCase f.flagName s.token) = some i →
      Moves form mode s (s.clearToken.goto (.value i (.separator false)))
  | value {i : Nat} {stage : ValueStage} {field : Field} {t : Scan} :
      form.fields[i]? = some field → s.state = .value i stage →
      ValueMoves mode field i s stage t → Moves form mode s t
  | list {i : Nat} {stage : ListStage} {field : Field} {t : Scan} :
      form.fields[i]? = some field → s.state = .list i stage → ListMoves field i s stage t →
      Moves form mode s t
  | listEnd {i : Nat} {c : Char} {r : List Char} : s.state = .listEnd i → s.ahead = c :: r →
      Text.isBlank c = true → Moves form mode s (s.beginToken.goto .parameterSeparator)

/-! ## Single steps -/

theorem moves_of_startParameter (hstate : s.state = .startParameter)
    (h : parameterStep form mode s = .next t) : Moves form mode s t := by
  cases hahead : s.ahead with
  | nil =>
    rw [step_startParameter_nil hstate hahead] at h
    cases h
  | cons c r =>
    by_cases hdash : c = '-'
    · rw [hdash] at hahead
      rw [step_startParameter_dash hstate hahead] at h
      obtain rfl := Step.next.inj h
      exact .dash hstate hahead
    · rw [step_startParameter_cons hstate hahead hdash] at h
      split at h
      · rename_i i hi
        obtain rfl := Step.next.inj h
        exact .positional hstate hahead hdash hi
      · split at h
        · rename_i i hi
          obtain rfl := Step.next.inj h
          exact .rest hstate hahead hdash hi
        · cases h

theorem moves_of_parameterSeparator (hstate : s.state = .parameterSeparator)
    (h : parameterStep form mode s = .next t) : Moves form mode s t := by
  cases hahead : s.ahead with
  | nil =>
    rw [step_parameterSeparator_nil hstate hahead] at h
    cases h
  | cons c r =>
    cases hblank : Text.isBlank c with
    | true =>
      rw [step_parameterSeparator_blank hstate hahead hblank] at h
      obtain rfl := Step.next.inj h
      exact .gap hstate hahead hblank
    | false =>
      rw [step_parameterSeparator_cons hstate hahead hblank] at h
      obtain rfl := Step.next.inj h
      exact .begin hstate hahead hblank

theorem moves_of_flagDash (hstate : s.state = .flagDash)
    (h : parameterStep form mode s = .next t) : Moves form mode s t := by
  by_cases hdash : s.ahead.head? = some '-'
  · obtain ⟨r, hahead⟩ := List.head?_eq_some_iff.mp hdash
    rw [step_flagDash_dash hstate hahead] at h
    obtain rfl := Step.next.inj h
    exact .secondDash hstate hahead
  · rw [step_flagDash_other hstate hdash] at h
    obtain rfl := Step.next.inj h
    exact .singleDash hstate hdash

theorem moves_of_flagName (hstate : s.state = .flagName)
    (h : parameterStep form mode s = .next t) : Moves form mode s t := by
  have hflag (hend : s.ahead = [] ∧ mode = .execute ∨ ∃ c r, s.ahead = c :: r ∧ ¬ IsNameChar c) :
      Moves form mode s t := by
    rw [step_flagName_end hstate hend] at h
    unfold flagEndStep at h
    split at h
    · rename_i i hi
      obtain rfl := Step.next.inj h
      exact .flag hstate hend hi
    · cases h
  cases hahead : s.ahead with
  | nil =>
    cases mode with
    | execute => exact hflag (.inl ⟨hahead, rfl⟩)
    | autocomplete =>
      simp only [parameterStep, hstate, flagNameStep, peek?_of_ahead_nil hahead] at h
      cases h
  | cons c r =>
    by_cases hname : IsNameChar c
    · rw [step_flagName_cons hstate hahead hname] at h
      obtain rfl := Step.next.inj h
      exact .name hstate hahead hname
    · exact hflag (.inr ⟨c, r, hahead, hname⟩)

theorem moves_of_listEnd (hstate : s.state = .listEnd i)
    (h : parameterStep form mode s = .next t) : Moves form mode s t := by
  cases hahead : s.ahead with
  | nil =>
    rw [step_listEnd_nil hstate hahead] at h
    cases h
  | cons c r =>
    cases hblank : Text.isBlank c with
    | true =>
      rw [step_listEnd_blank hstate hahead hblank] at h
      obtain rfl := Step.next.inj h
      exact .listEnd hstate hahead hblank
    | false =>
      rw [step_listEnd_cons hstate hahead hblank] at h
      cases h

theorem quotedMoves_of_quotedStep {closed : ScanState}
    (h : quotedStep mode q closed s = .next t) : QuotedMoves q closed s t := by
  cases hahead : s.ahead with
  | nil =>
    rw [quotedStep_nil hahead] at h
    exact absurd h not_next_cutShort
  | cons c r =>
    by_cases hclose : c = q.char
    · rw [hclose] at hahead
      rw [quotedStep_close hahead] at h
      split at h
      · cases h
      · rename_i hinside
        obtain rfl := Step.next.inj h
        exact .close hahead hinside
    · by_cases hescape : c = '\\' ∧ q = .double
      · obtain ⟨rfl, hq⟩ := hescape
        cases r with
        | nil =>
          rw [quotedStep_escape_nil hq hahead] at h
          exact absurd h not_next_cutShort
        | cons d r =>
          rw [quotedStep_escape hq hahead] at h
          obtain rfl := Step.next.inj h
          exact .escape hq hahead
      · rw [quotedStep_plain hahead hclose hescape] at h
        obtain rfl := Step.next.inj h
        exact .plain hahead hclose hescape

theorem valueEndMoves_of_valueEndStep {quoted : Bool}
    (h : valueEndStep mode field quoted s = .next t) : ValueEndMoves mode field quoted s t := by
  unfold valueEndStep at h
  split at h
  · cases h
  · rename_i hfilter
    have hblank (hquoted : quoted = true) : StartsBlank s.ahead := by
      rw [hquoted, Option.filter_eq_none_iff, peek?_eq_head?] at hfilter
      intro c hc
      simpa using hfilter c hc
    split at h
    · rename_i hreject
      obtain rfl := Step.next.inj h
      exact .rescan hblank hreject.1 (by simpa using hreject.2)
    · rename_i haccept
      split at h
      · cases h
      · split at h
        · cases h
        · rename_i htoken
          dsimp only at h
          split at h
          · cases h
          · rename_i hmore
            obtain rfl := Step.next.inj h
            obtain ⟨c, hc⟩ := Option.ne_none_iff_exists'.mp hmore
            obtain ⟨r, hahead⟩ := ahead_of_peek? (s := s) hc
            refine .close hahead (fun hquoted => hblank hquoted c (by rw [hahead]; rfl)) ?_ ?_
            · rintro rfl
              simpa using htoken
            · intro hbool
              simpa [hbool] using haccept

theorem valueMoves_of_separator {equalsSeen : Bool} (hfield : form.fields[i]? = some field)
    (hstate : s.state = .value i (.separator equalsSeen))
    (h : parameterStep form mode s = .next t) :
    ValueMoves mode field i s (.separator equalsSeen) t := by
  cases hahead : s.ahead with
  | nil =>
    cases mode with
    | execute =>
      rw [step_separator_nil hfield hstate hahead] at h
      obtain rfl := Step.next.inj h
      exact .separatorEnd rfl hahead
    | autocomplete =>
      have hpeek : s.markToken.peek? = none := peek?_of_ahead_nil hahead
      rw [parameterStep_value hfield hstate] at h
      simp only [valueStep, valueSeparatorStep, hpeek] at h
      cases h
  | cons c r =>
    by_cases hequals : c = '='
    · rw [hequals] at hahead
      rw [step_separator_equals hfield hstate hahead] at h
      cases equalsSeen with
      | true => cases h
      | false =>
        obtain rfl := Step.next.inj h
        exact .equals hahead
    · cases hblank : Text.isBlank c with
      | true =>
        rw [step_separator_blank hfield hstate hahead hblank] at h
        obtain rfl := Step.next.inj h
        exact .gap hahead hblank
      | false =>
        rw [step_separator_cons hfield hstate hahead hequals hblank] at h
        obtain rfl := Step.next.inj h
        exact .begin hahead hequals hblank

theorem valueMoves_of_start (hfield : form.fields[i]? = some field)
    (hstate : s.state = .value i .start) (h : parameterStep form mode s = .next t) :
    ValueMoves mode field i s .start t := by
  cases hahead : s.ahead with
  | nil =>
    rw [step_start_nil hfield hstate hahead] at h
    obtain rfl := Step.next.inj h
    exact .startEnd hahead
  | cons c r =>
    by_cases hquote : ∃ q : Quote, c = q.char
    · obtain ⟨q, rfl⟩ := hquote
      rw [step_start_quote hfield hstate hahead] at h
      obtain rfl := Step.next.inj h
      exact .quote hahead
    · by_cases hbracket : c = '[' ∧ field.multiselect = true
      · obtain ⟨rfl, hmulti⟩ := hbracket
        rw [step_start_bracket hfield hstate hahead hmulti] at h
        obtain rfl := Step.next.inj h
        exact .bracket hahead hmulti
      · cases hblank : Text.isBlank c with
        | true =>
          rw [step_start_blank hfield hstate hahead hblank] at h
          cases h
        | false =>
          have hbegins : BeginsBare field c :=
            ⟨fun q hq => hquote ⟨q, hq⟩, hbracket, hblank⟩
          rw [step_start_bare hfield hstate hahead hbegins] at h
          obtain rfl := Step.next.inj h
          exact .bare hahead hbegins

theorem valueMoves_of_bare (hfield : form.fields[i]? = some field)
    (hstate : s.state = .value i .bare) (h : parameterStep form mode s = .next t) :
    ValueMoves mode field i s .bare t := by
  by_cases hblank : StartsBlank s.ahead
  · rw [step_bare_end hfield hstate hblank] at h
    obtain rfl := Step.next.inj h
    exact .complete hblank
  · cases hahead : s.ahead with
    | nil =>
      rw [hahead] at hblank
      exact absurd startsBlank_nil hblank
    | cons c r =>
      have hplain : Text.isBlank c = false := by
        rw [hahead] at hblank
        exact Bool.eq_false_iff.mpr fun hc => hblank (startsBlank_cons hc)
      rw [step_bare_cons hfield hstate hahead hplain] at h
      obtain rfl := Step.next.inj h
      exact .push hahead hplain

theorem valueMoves_of_parameterStep {stage : ValueStage} (hfield : form.fields[i]? = some field)
    (hstate : s.state = .value i stage) (h : parameterStep form mode s = .next t) :
    ValueMoves mode field i s stage t := by
  have hvalue := (parameterStep_value hfield hstate).symm.trans h
  cases stage with
  | separator equalsSeen => exact valueMoves_of_separator hfield hstate h
  | start => exact valueMoves_of_start hfield hstate h
  | bare => exact valueMoves_of_bare hfield hstate h
  | quoted q => exact .quoted (quotedMoves_of_quotedStep hvalue)
  | endBare => exact .endBare (valueEndMoves_of_valueEndStep hvalue)
  | endQuoted q => exact .endQuoted (valueEndMoves_of_valueEndStep hvalue)

theorem listMoves_of_elementStep {stage : ListStage} {afterComma : Bool}
    (hstage : stage = .start ∧ afterComma = false ∨ stage = .next ∧ afterComma = true)
    (h : elementStep mode i afterComma s = .next t) : ListMoves field i s stage t := by
  have hfront : stage = .start ∨ stage = .next := hstage.imp And.left And.left
  cases hahead : s.ahead with
  | nil =>
    rw [elementStep_nil hahead] at h
    exact absurd h not_next_cutShort
  | cons c r =>
    cases hblank : Text.isBlank c with
    | true =>
      rw [elementStep_blank hahead hblank] at h
      obtain rfl := Step.next.inj h
      exact .gap (hfront.imp_right .inl) hahead hblank
    | false =>
      rcases hstage with ⟨rfl, rfl⟩ | ⟨rfl, rfl⟩
      · by_cases hclose : c = ']'
        · rw [hclose] at hahead
          rw [elementStep_close hahead] at h
          obtain rfl := Step.next.inj h
          exact .close (.inl rfl) hahead
        · rw [elementStep_cons hahead hblank hclose (absurd · Bool.false_ne_true)] at h
          obtain rfl := Step.next.inj h
          exact .begin hfront hahead hblank hclose nofun
      · by_cases hend : c = ']' ∨ c = ','
        · rw [elementStep_afterComma hahead hend] at h
          cases h
        · obtain ⟨hclose, hcomma⟩ := not_or.mp hend
          rw [elementStep_cons hahead hblank hclose fun _ => hcomma] at h
          obtain rfl := Step.next.inj h
          exact .begin hfront hahead hblank hclose fun _ => hcomma

theorem listMoves_of_elementStartStep (h : elementStartStep i s = .next t) :
    ListMoves field i s .elementStart t := by
  unfold elementStartStep at h
  dsimp only at h
  split at h
  · rename_i hnone
    obtain rfl := Step.next.inj h
    exact .startEnd (ahead_of_peek?_none (s := s.beginToken) hnone)
  · rename_i c hc
    obtain ⟨r, hahead⟩ := ahead_of_peek? (s := s.beginToken) hc
    split at h
    · rename_i hdouble
      rw [hdouble] at hahead
      obtain rfl := Step.next.inj h
      exact .quote (q := .double) hahead
    · split at h
      · rename_i htick
        rw [htick] at hahead
        obtain rfl := Step.next.inj h
        exact .quote (q := .tick) hahead
      · rename_i hdouble htick
        split at h
        · cases h
        · rename_i hend
          obtain ⟨hcomma, hclose⟩ := not_or.mp hend
          obtain rfl := Step.next.inj h
          exact .bare hahead (Quote.forall_ne_char.mpr ⟨hdouble, htick⟩) hcomma hclose

theorem listMoves_of_bareElementStep (h : bareElementStep mode i s = .next t) :
    ListMoves field i s .bare t := by
  cases hahead : s.ahead with
  | nil =>
    rw [bareElementStep_nil hahead] at h
    exact absurd h not_next_cutShort
  | cons c r =>
    by_cases hend : Text.isBlank c = true ∨ c = ',' ∨ c = ']'
    · rw [bareElementStep_end hahead hend] at h
      obtain rfl := Step.next.inj h
      exact .complete hahead hend
    · by_cases hopen : c = '[' ∨ ∃ q : Quote, c = q.char
      · rw [bareElementStep_open hahead hopen] at h
        cases h
      · obtain ⟨hbracket, hquote⟩ := not_or.mp hopen
        obtain ⟨hblank, hcomma, hclose⟩ : Text.isBlank c = false ∧ c ≠ ',' ∧ c ≠ ']' := by
          simpa using hend
        have hchar : IsElementChar c :=
          ⟨hblank, hcomma, hclose, hbracket, fun q hq => hquote ⟨q, hq⟩⟩
        rw [bareElementStep_cons hahead hchar] at h
        obtain rfl := Step.next.inj h
        exact .push hahead hchar

theorem listMoves_of_elementSeparatorStep (h : elementSeparatorStep mode i s = .next t) :
    ListMoves field i s .separator t := by
  cases hahead : s.ahead with
  | nil =>
    rw [elementSeparatorStep_nil hahead] at h
    exact absurd h not_next_cutShort
  | cons c r =>
    cases hblank : Text.isBlank c with
    | true =>
      rw [elementSeparatorStep_blank hahead hblank] at h
      obtain rfl := Step.next.inj h
      exact .gap (.inr (.inr rfl)) hahead hblank
    | false =>
      by_cases hcomma : c = ','
      · rw [hcomma] at hahead
        rw [elementSeparatorStep_comma hahead] at h
        obtain rfl := Step.next.inj h
        exact .comma hahead
      · by_cases hclose : c = ']'
        · rw [hclose] at hahead
          rw [elementSeparatorStep_close hahead] at h
          obtain rfl := Step.next.inj h
          exact .close (.inr rfl) hahead
        · rw [elementSeparatorStep_cons hahead hblank hcomma hclose] at h
          cases h

theorem listMoves_of_listStep {stage : ListStage} (h : listStep mode field i stage s = .next t) :
    ListMoves field i s stage t := by
  cases stage with
  | start => exact listMoves_of_elementStep (.inl ⟨rfl, rfl⟩) h
  | next => exact listMoves_of_elementStep (.inr ⟨rfl, rfl⟩) h
  | elementStart => exact listMoves_of_elementStartStep h
  | bare => exact listMoves_of_bareElementStep h
  | quoted q => exact .quoted (quotedMoves_of_quotedStep h)
  | elementEnd =>
    obtain rfl := Step.next.inj h
    exact .append
  | separator => exact listMoves_of_elementSeparatorStep h

/-! ## All states -/

/-- **A step that goes on is a move.** -/
theorem moves_of_parameterStep (h : parameterStep form mode s = .next t) : Moves form mode s t := by
  cases hstate : s.state with
  | startParameter => exact moves_of_startParameter hstate h
  | parameterSeparator => exact moves_of_parameterSeparator hstate h
  | flagDash => exact moves_of_flagDash hstate h
  | flagName => exact moves_of_flagName hstate h
  | value i stage =>
    cases hfield : form.fields[i]? with
    | some field => exact .value hfield hstate (valueMoves_of_parameterStep hfield hstate h)
    | none =>
      simp only [parameterStep, hstate, hfield] at h
      cases h
  | list i stage =>
    cases hfield : form.fields[i]? with
    | some field =>
      rw [parameterStep_list hfield hstate] at h
      exact .list hfield hstate (listMoves_of_listStep h)
    | none =>
      simp only [parameterStep, hstate, hfield] at h
      cases h
  | listEnd i => exact moves_of_listEnd hstate h
  | rest i =>
    cases hfield : form.fields[i]? with
    | some field =>
      rw [step_rest hfield hstate] at h
      cases h
    | none =>
      simp only [parameterStep, hstate, hfield] at h
      cases h
  | start | command | endCommand | commandSeparator | failed =>
    rw [parameterStep, hstate] at h
    cases h

/-! ## Quotations -/

theorem QuotedMoves.ahead_ne_nil {closed : ScanState} (h : QuotedMoves q closed s t) :
    s.ahead ≠ [] := by
  intro hnil
  cases h with
  | close hahead | escape _ hahead | plain hahead =>
    rw [hnil] at hahead
    cases hahead

/-- In a quotation nothing is stored. -/
theorem QuotedMoves.values_eq {closed : ScanState} (h : QuotedMoves q closed s t) :
    t.values = s.values := by
  cases h with
  | close | escape | plain => rfl

/-- The state is the same up to the closing mark. -/
theorem QuotedMoves.state_eq {closed : ScanState} (h : QuotedMoves q closed s t) :
    t.state = s.state ∨ t.state = closed := by
  cases h with
  | close => exact .inr rfl
  | escape | plain => exact .inl rfl

end Scan

end SlashCommand
