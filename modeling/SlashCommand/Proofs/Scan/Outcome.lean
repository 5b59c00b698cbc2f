import SlashCommand.Proofs.Scan.Steps

/-!
# Outcomes of a scan

What a command that is executed comes to is its `outcome`: the values of its fields, or nothing if
it fails.  The scan matters for that only by where it stands, which is `Stands`: its state, the
number of positional parameters before it, the values so far, and the text ahead.

For each construct of the grammar two things are shown in the modules from here on.  A scan in front
of the construct leads behind it, with the same outcome.  And a scan that has an outcome at all has
the construct in front of it.  This module has runs of characters of one kind, and quotations.
-/

namespace SlashCommand

namespace Scan

/-! ## Where a scan stands -/

/-- Where a scan stands: its state, how many parameters were given by place, the values of the
fields and the text ahead. -/
structure Stands (state : ScanState) (k : Nat) (values : Values) (text : List Char) (s : Scan) :
    Prop where
  state_eq : s.state = state
  positionals_eq : s.positionals = k
  values_eq : s.values = values
  ahead_eq : s.ahead = text

namespace Stands

variable {state state' : ScanState} {k : Nat} {values : Values} {text r : List Char} {c : Char}
  {s : Scan}

theorem isFailed_eq (h : Stands state k values text s) : s.isFailed = state.isFailed := by
  rw [isFailed, h.state_eq]

theorem goto (h : Stands state k values text s) (state' : ScanState) :
    Stands state' k values text (s.goto state') :=
  ⟨rfl, h.positionals_eq, h.values_eq, h.ahead_eq⟩

theorem beginToken (h : Stands state k values text s) : Stands state k values text s.beginToken :=
  ⟨h.state_eq, h.positionals_eq, h.values_eq, h.ahead_eq⟩

theorem markToken (h : Stands state k values text s) : Stands state k values text s.markToken :=
  ⟨h.state_eq, h.positionals_eq, h.values_eq, h.ahead_eq⟩

theorem advance (h : Stands state k values (c :: r) s) : Stands state k values r s.advance :=
  ⟨h.state_eq, h.positionals_eq, h.values_eq, ahead_advance h.ahead_eq⟩

theorem push (h : Stands state k values (c :: r) s) (d : Char) :
    Stands state k values r (s.push d) := by
  have hahead : (s.push d).ahead = s.advance.ahead := rfl
  exact ⟨h.state_eq, h.positionals_eq, h.values_eq, hahead.trans (ahead_advance h.ahead_eq)⟩

theorem pushAll {w : List Char} (h : Stands state k values (w ++ r) s) :
    Stands state k values r (s.pushAll w) :=
  ⟨h.state_eq, h.positionals_eq, h.values_eq, ahead_pushAll h.ahead_eq⟩

end Stands

/-! ## Outcomes -/

variable {form : Form} {s t : Scan} {state : ScanState} {k : Nat} {values : Values}
  {text r w : List Char}

/-- The values that a run for executing ends with, unless it fails. -/
def outcome (form : Form) (s : Scan) : Option Values :=
  if (readForm form .execute s).isFailed then none else some (readForm form .execute s).values

theorem outcome_congr (h : readForm form .execute s = readForm form .execute t) :
    outcome form s = outcome form t := by
  rw [outcome, h]
  rfl

theorem outcome_of_next (h : parameterStep form .execute s = .next t) :
    outcome form s = outcome form t :=
  outcome_congr (readForm_of_next h)

theorem outcome_of_stop (h : parameterStep form .execute s = .stop t) (ht : t.isFailed = false) :
    outcome form s = some t.values := by
  rw [outcome, readForm_of_stop h, ht]
  rfl

/-- A run that fails has no outcome. -/
theorem outcome_of_fail {e : GrammarError} (h : parameterStep form .execute s = .fail t e) :
    outcome form s = none := by
  rw [outcome, readForm_of_fail h]
  rfl

theorem outcome_of_failed {error : ParseError}
    (h : (readForm form .execute s).state = .failed error) : outcome form s = none := by
  have hfailed : (readForm form .execute s).isFailed = true := by
    rw [isFailed, h]
    rfl
  rw [outcome, hfailed]
  rfl

/-- At the end of the text the outcome is what has been found. -/
theorem outcome_startParameter_nil (hs : Stands .startParameter k values [] s) :
    outcome form s = some values := by
  have hfailed : s.beginToken.isFailed = false := hs.beginToken.isFailed_eq
  have hvalues : s.beginToken.values = values := hs.values_eq
  rw [outcome_of_stop (step_startParameter_nil hs.state_eq hs.ahead_eq) hfailed, hvalues]

theorem outcome_parameterSeparator_nil (hs : Stands .parameterSeparator k values [] s) :
    outcome form s = some values := by
  have hvalues : (s.markToken.goto .startParameter).values = values := hs.values_eq
  rw [outcome_of_stop (step_parameterSeparator_nil hs.state_eq hs.ahead_eq) rfl, hvalues]

/-! ## Runs of characters -/

/-- A state that passes over every character of a kind passes over a run of them. -/
theorem outcome_passes {p : Char → Prop}
    (hstep : ∀ t c r, Stands state k values (c :: r) t → p c →
      ∃ u, Stands state k values r u ∧ parameterStep form .execute t = .next u)
    (hs : Stands state k values (w ++ r) s) (hw : ∀ c ∈ w, p c) :
    ∃ t, Stands state k values r t ∧ outcome form s = outcome form t := by
  induction w generalizing s with
  | nil => exact ⟨s, hs, rfl⟩
  | cons c w ih =>
    obtain ⟨u, hu, hnext⟩ := hstep s c (w ++ r) hs (hw c List.mem_cons_self)
    obtain ⟨t, ht, hout⟩ := ih hu fun d hd => hw d (List.mem_cons_of_mem c hd)
    exact ⟨t, ht, (outcome_of_next hnext).trans hout⟩

/-- A state that reads every character of a kind into the token reads a word of them. -/
theorem outcome_pushAll {p : Char → Prop}
    (hstep : ∀ t c r, t.state = state → t.ahead = c :: r → p c →
      parameterStep form .execute t = .next (t.push c))
    (hs : Stands state k values (w ++ r) s) (hw : ∀ c ∈ w, p c) :
    outcome form s = outcome form (s.pushAll w) :=
  outcome_congr (run_pushAll hstep hs.state_eq hs.ahead_eq hw)

/-! ## Quotations -/

variable {q : Quote} {closed : ScanState} {body token : List Char}

/-- The inside of a quotation is read into the token. -/
theorem outcome_quotedText (hstep : ∀ t, t.state = state →
      parameterStep form .execute t = quotedStep .execute q closed t)
    (h : QuotedText q body token) (hs : Stands state k values (body ++ r) s) :
    ∃ t, Stands state k values r t ∧ t.token = s.token ++ String.ofList token ∧
      t.tokenStart = s.tokenStart ∧ t.cursor = s.cursor + body.length ∧
      outcome form s = outcome form t := by
  have hpush (u : Scan) (c : Char) (cs : List Char) :
      (u.push c).token ++ String.ofList cs = u.token ++ String.ofList (c :: cs) := by
    apply String.toList_inj.mp
    simp [push]
  induction h generalizing s with
  | nil => exact ⟨s, hs, by simp, rfl, rfl, rfl⟩
  | @plain c body token hclose hescape _ ih =>
    have hnext := (hstep s hs.state_eq).trans (quotedStep_plain hs.ahead_eq hclose hescape)
    obtain ⟨t, ht, htoken, hstart, hcursor, hout⟩ := ih (hs.push c)
    refine ⟨t, ht, htoken.trans (hpush s c token), hstart, ?_, (outcome_of_next hnext).trans hout⟩
    rw [hcursor, List.length_cons]
    show s.cursor + 1 + body.length = _
    omega
  | @escaped c body token hq _ ih =>
    have hnext := (hstep s hs.state_eq).trans (quotedStep_escape hq hs.ahead_eq)
    obtain ⟨t, ht, htoken, hstart, hcursor, hout⟩ := ih (hs.advance.push c)
    refine ⟨t, ht, htoken.trans (hpush s c token), hstart, ?_, (outcome_of_next hnext).trans hout⟩
    rw [hcursor, List.length_cons, List.length_cons]
    show s.cursor + 1 + 1 + body.length = _
    omega

/-- A quotation is read up to its closing mark. -/
theorem outcome_quotation (hstep : ∀ t, t.state = state →
      parameterStep form .execute t = quotedStep .execute q closed t)
    (hbody : body ≠ []) (h : QuotedText q body token)
    (hs : Stands state k values (body ++ q.char :: r) s) (htoken : s.token = "")
    (hstart : s.cursor = s.tokenStart + 1) :
    ∃ t, Stands closed k values r t ∧ t.token = String.ofList token ∧
      outcome form s = outcome form t := by
  obtain ⟨t, ht, httoken, htstart, htcursor, hout⟩ := outcome_quotedText hstep h hs
  have hlength : 0 < body.length := List.length_pos_iff.mpr hbody
  have hinside : ¬ t.cursor = t.tokenStart + 1 := by omega
  have hnext : parameterStep form .execute t = .next (t.advance.goto closed) := by
    rw [hstep t ht.state_eq, quotedStep_close ht.ahead_eq, if_neg hinside]
  refine ⟨t.advance.goto closed, ht.advance.goto closed, ?_, hout.trans (outcome_of_next hnext)⟩
  show t.token = _
  rw [httoken, htoken, String.empty_append]

/-- A run between quotation marks that has an outcome finds the closing mark. -/
theorem exists_quotedText (hstep : ∀ t, t.state = state →
      parameterStep form .execute t = quotedStep .execute q closed t)
    (hs : Stands state k values text s) (hout : outcome form s ≠ none) :
    ∃ body token r, text = body ++ q.char :: r ∧ QuotedText q body token ∧
      s.cursor + body.length ≠ s.tokenStart + 1 := by
  induction hn : text.length using Nat.strongRecOn generalizing s text with
  | ind n ih =>
    have hquoted := hstep s hs.state_eq
    cases text with
    | nil =>
      rw [quotedStep_nil hs.ahead_eq] at hquoted
      exact absurd (outcome_of_fail hquoted) hout
    | cons c r =>
      by_cases hclose : c = q.char
      · -- the closing mark
        subst hclose
        rw [quotedStep_close hs.ahead_eq] at hquoted
        by_cases hempty : s.cursor = s.tokenStart + 1
        · rw [if_pos hempty] at hquoted
          exact absurd (outcome_of_fail hquoted) hout
        · exact ⟨[], [], r, rfl, .nil, hempty⟩
      · by_cases hescape : c = '\\' ∧ q = .double
        · -- a backslash and the character behind it
          obtain ⟨rfl, hq⟩ := hescape
          cases r with
          | nil =>
            rw [quotedStep_escape_nil hq hs.ahead_eq] at hquoted
            exact absurd (outcome_of_fail hquoted) hout
          | cons d r =>
            rw [quotedStep_escape hq hs.ahead_eq] at hquoted
            have hlt : r.length < n := by
              rw [← hn, List.length_cons, List.length_cons]
              omega
            obtain ⟨body, token, r', hr, hbody, hcursor⟩ :=
              ih r.length hlt (hs.advance.push d) (outcome_of_next hquoted ▸ hout) rfl
            refine ⟨'\\' :: d :: body, d :: token, r', by rw [hr]; rfl, .escaped hq hbody, ?_⟩
            have hmoved : s.cursor + 1 + 1 + body.length ≠ s.tokenStart + 1 := hcursor
            rw [List.length_cons, List.length_cons]
            omega
        · rw [quotedStep_plain hs.ahead_eq hclose hescape] at hquoted
          have hlt : r.length < n := by
            rw [← hn, List.length_cons]
            omega
          obtain ⟨body, token, r', hr, hbody, hcursor⟩ :=
            ih r.length hlt (hs.push c) (outcome_of_next hquoted ▸ hout) rfl
          refine ⟨c :: body, c :: token, r', by rw [hr]; rfl, .plain hclose hescape hbody, ?_⟩
          have hmoved : s.cursor + 1 + body.length ≠ s.tokenStart + 1 := hcursor
          rw [List.length_cons]
          omega

/-- A run that begins a quotation and has an outcome has a quotation in front of it. -/
theorem exists_quotation (hstep : ∀ t, t.state = state →
      parameterStep form .execute t = quotedStep .execute q closed t)
    (hs : Stands state k values text s) (hstart : s.cursor = s.tokenStart + 1)
    (hout : outcome form s ≠ none) :
    ∃ body token r, text = body ++ q.char :: r ∧ body ≠ [] ∧ QuotedText q body token := by
  obtain ⟨body, token, r, htext, hbody, hcursor⟩ := exists_quotedText hstep hs hout
  refine ⟨body, token, r, htext, ?_, hbody⟩
  rintro rfl
  exact hcursor hstart

end Scan

end SlashCommand
