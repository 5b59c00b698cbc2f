import SlashCommand.Scan.Descent
import SlashCommand.Scan.Parameters

/-!
# Runs of a scan

Both phases of a scan are one loop, `Scan.run`, over different steps.  This module opens the loop
once and for all, so that whatever is proved about a phase is proved about its single steps.

* `run_of_next`, `run_of_stop`, `run_of_fail`: what one step says about a whole run.
* `run_invariant`: what each step keeps, the run keeps.  Where a run ends, the last step says what
  else is true.  `run_preserves` is the case where nothing else is said there.
* `run_lockstep`: two runs that make the same steps up to where the first one ends.
* `run_related`: two runs whose steps are related in pairs.

A step looks at the text through its next character only, so the proofs speak of the text that is
*ahead* of the cursor, `Scan.ahead`.  A character is read by dropping it from that list.
-/

namespace SlashCommand

namespace Scan

/-! ## The loop -/

/-- The scan that a step ends in.  For a step that fails it is the scan at the point of failure. -/
def Step.scan : Step → Scan
  | next s => s
  | stop s => s
  | fail s _ => s

/-- Two steps are of the same kind, and end in related scans. -/
inductive Step.Related (R : Scan → Scan → Prop) : Step → Step → Prop
  | next {s s' : Scan} : R s s' → Related R (.next s) (.next s')
  | stop {s s' : Scan} : R s s' → Related R (.stop s) (.stop s')
  | fail {s s' : Scan} {e : GrammarError} : R s s' → Related R (.fail s e) (.fail s' e)

section Loop

variable {step : Scan → Step} {measure : Scan → Nat}
  {decreases : ∀ {s s'}, step s = .next s' → measure s' < measure s} {s s' : Scan}

theorem run_of_next (h : step s = .next s') :
    run step measure decreases s = run step measure decreases s' := by
  rw [run]
  split
  · rename_i t ht
    rw [h] at ht
    rw [Step.next.inj ht]
  all_goals
    rename_i ht
    rw [h] at ht
    cases ht

theorem run_of_stop (h : step s = .stop s') : run step measure decreases s = s' := by
  rw [run]
  split
  case h_2 t ht =>
    rw [h] at ht
    exact (Step.stop.inj ht).symm
  all_goals
    rename_i ht
    rw [h] at ht
    cases ht

theorem run_of_fail {e : GrammarError} (h : step s = .fail s' e) :
    run step measure decreases s = s'.fail e := by
  rw [run]
  split
  case h_3 t e' ht =>
    rw [h] at ht
    obtain ⟨h1, h2⟩ := Step.fail.inj ht
    rw [h1, h2]
  all_goals
    rename_i ht
    rw [h] at ht
    cases ht

/-- What holds where a run ends, and holds before a step if it holds after it, holds of every
run. -/
theorem run_induction (decreases : ∀ {s s'}, step s = .next s' → measure s' < measure s)
    {motive : Scan → Prop} (next : ∀ s s', step s = .next s' → motive s' → motive s)
    (stop : ∀ s s', step s = .stop s' → motive s)
    (fail : ∀ s s' e, step s = .fail s' e → motive s) (s : Scan) : motive s := by
  induction hn : measure s using Nat.strongRecOn generalizing s with
  | ind n ih =>
    cases h : step s with
    | next s' => exact next s s' h (ih (measure s') (hn ▸ decreases h) s' rfl)
    | stop s' => exact stop s s' h
    | fail s' e => exact fail s s' e h

/-- The invariant rule: what every step keeps holds up to the end of the run, and there the last
step gives the conclusion. -/
theorem run_invariant (inv post : Scan → Prop)
    (next : ∀ s s', inv s → step s = .next s' → inv s')
    (stop : ∀ s s', inv s → step s = .stop s' → post s')
    (fail : ∀ s s' e, inv s → step s = .fail s' e → post (s'.fail e)) (h : inv s) :
    post (run step measure decreases s) := by
  induction s using run_induction decreases with
  | next s s' hs ih =>
    rw [run_of_next hs]
    exact ih (next s s' h hs)
  | stop s s' hs =>
    rw [run_of_stop hs]
    exact stop s s' h hs
  | fail s s' e hs =>
    rw [run_of_fail hs]
    exact fail s s' e h hs

/-- What every step keeps holds where the last one is taken. -/
theorem exists_lastStep (inv : Scan → Prop) (next : ∀ s s', inv s → step s = .next s' → inv s')
    (h : inv s) :
    ∃ u, inv u ∧ (step u = .stop (run step measure decreases s) ∨
      ∃ t e, step u = .fail t e ∧ run step measure decreases s = t.fail e) :=
  run_invariant inv
    (fun last => ∃ u, inv u ∧ (step u = .stop last ∨ ∃ t e, step u = .fail t e ∧ last = t.fail e))
    next (fun u _ hu hstop => ⟨u, hu, .inl hstop⟩)
    (fun u t e hu hfail => ⟨u, hu, .inr ⟨t, e, hfail, rfl⟩⟩) h

/-- What is kept wherever a step ends, and by a failure, is kept by the run. -/
theorem run_preserves (inv : Scan → Prop) (kept : ∀ s, inv s → inv (step s).scan)
    (failed : ∀ s e, inv s → inv (s.fail e)) (h : inv s) :
    inv (run step measure decreases s) := by
  refine run_invariant inv inv ?_ ?_ ?_ h
  · intro t u ht hu
    have hkept := kept t ht
    rwa [hu] at hkept
  · intro t u ht hu
    have hkept := kept t ht
    rwa [hu] at hkept
  · intro t u e ht hu
    have hkept := kept t ht
    rw [hu] at hkept
    exact failed u e hkept

/-- The lock-step rule: a second loop follows the first from step to step, and where the first one
ends, its last step relates the outcomes. -/
theorem run_lockstep {step' : Scan → Step} {measure' : Scan → Nat}
    {decreases' : ∀ {s s'}, step' s = .next s' → measure' s' < measure' s}
    (inv : Scan → Prop) (post : Scan → Scan → Prop)
    (next : ∀ s s', inv s → step s = .next s' → step' s = .next s' ∧ inv s')
    (stop : ∀ s s', inv s → step s = .stop s' → post s' (run step' measure' decreases' s))
    (fail : ∀ s s' e, inv s → step s = .fail s' e →
      post (s'.fail e) (run step' measure' decreases' s)) (h : inv s) :
    post (run step measure decreases s) (run step' measure' decreases' s) := by
  induction s using run_induction decreases with
  | next s s' hs ih =>
    obtain ⟨hs', hinv⟩ := next s s' h hs
    rw [run_of_next hs, run_of_next hs']
    exact ih hinv
  | stop s s' hs =>
    rw [run_of_stop hs]
    exact stop s s' h hs
  | fail s s' e hs =>
    rw [run_of_fail hs]
    exact fail s s' e h hs

/-- The relational rule: if every step of the one loop is related to the step of the other, the runs
end in related scans. -/
theorem run_related {step' : Scan → Step} {measure' : Scan → Nat}
    {decreases' : ∀ {s s'}, step' s = .next s' → measure' s' < measure' s}
    (R : Scan → Scan → Prop) (steps : ∀ s s', R s s' → Step.Related R (step s) (step' s'))
    (fails : ∀ s s' e, R s s' → R (s.fail e) (s'.fail e)) (h : R s s') :
    R (run step measure decreases s) (run step' measure' decreases' s') := by
  induction s using run_induction decreases generalizing s' with
  | next s t hs ih =>
    have hrelated := steps s s' h
    rw [hs] at hrelated
    generalize hs' : step' s' = outcome' at hrelated
    cases hrelated with
    | next ht =>
      rw [run_of_next hs, run_of_next hs']
      exact ih ht
  | stop s t hs =>
    have hrelated := steps s s' h
    rw [hs] at hrelated
    generalize hs' : step' s' = outcome' at hrelated
    cases hrelated with
    | stop ht =>
      rw [run_of_stop hs, run_of_stop hs']
      exact ht
  | fail s t e hs =>
    have hrelated := steps s s' h
    rw [hs] at hrelated
    generalize hs' : step' s' = outcome' at hrelated
    cases hrelated with
    | fail ht =>
      rw [run_of_fail hs, run_of_fail hs']
      exact fails t _ e ht

end Loop

theorem error?_eq_none_of_isFailed {s : Scan} (h : s.isFailed = false) : s.error? = none := by
  unfold error?
  split
  · rename_i hstate
    rw [isFailed, hstate] at h
    cases h
  · rfl

theorem error?_of_state {s : Scan} {e : ParseError} (h : s.state = .failed e) :
    s.error? = some e := by
  rw [error?, h]

/-! ## The text ahead -/

/-- The text that is not yet read. -/
def ahead (s : Scan) : List Char := s.text.drop s.cursor

variable {s s' : Scan} {c : Char} {r w : List Char}

theorem peek?_eq_head? (s : Scan) : s.peek? = s.ahead.head? := by
  rw [peek?, ahead, List.head?_drop]

theorem peek?_of_ahead (h : s.ahead = c :: r) : s.peek? = some c := by
  rw [peek?_eq_head?, h, List.head?_cons]

theorem peek?_of_ahead_nil (h : s.ahead = []) : s.peek? = none := by
  rw [peek?_eq_head?, h, List.head?_nil]

theorem ahead_of_peek? (h : s.peek? = some c) : ∃ r, s.ahead = c :: r := by
  rw [peek?_eq_head?] at h
  exact List.head?_eq_some_iff.mp h

theorem ahead_of_peek?_none (h : s.peek? = none) : s.ahead = [] := by
  rw [peek?_eq_head?] at h
  exact List.head?_eq_none_iff.mp h

/-- Moving the cursor over a part of the text ahead drops that part. -/
theorem ahead_of_read (h : s.ahead = w ++ r) (text : s'.text = s.text)
    (cursor : s'.cursor = s.cursor + w.length) : s'.ahead = r := by
  rw [ahead] at h
  rw [ahead, text, cursor, ← List.drop_drop, h, List.drop_left]

theorem ahead_advance (h : s.ahead = c :: r) : s.advance.ahead = r := by
  have hread : s.ahead = [c] ++ r := h
  exact ahead_of_read hread rfl rfl

theorem ahead_push (h : s.ahead = c :: r) : (s.push c).ahead = r := by
  have hread : s.ahead = [c] ++ r := h
  exact ahead_of_read hread rfl rfl

/-- Nothing is ahead of a cursor only at the end of the text. -/
theorem cursor_eq_length (hle : s.cursor ≤ s.text.length) (h : s.ahead = []) :
    s.cursor = s.text.length := by
  rw [ahead, List.drop_eq_nil_iff] at h
  omega

/-! ## Reading a part of the text -/

/-- Reads a part of the text into the token. -/
def pushAll (s : Scan) (w : List Char) : Scan :=
  { s with token := s.token ++ String.ofList w, cursor := s.cursor + w.length }

/-- Moves the cursor over a part of the text. -/
def skip (s : Scan) (w : List Char) : Scan := { s with cursor := s.cursor + w.length }

theorem push_ne_empty (s : String) (c : Char) : s.push c ≠ "" := by
  intro h
  have hlist := congrArg String.toList h
  simp at hlist

theorem pushAll_nil (s : Scan) : s.pushAll [] = s := by
  simp [pushAll]

theorem pushAll_push (s : Scan) (c : Char) (w : List Char) :
    (s.push c).pushAll w = s.pushAll (c :: w) := by
  have htoken : s.token.push c ++ String.ofList w = s.token ++ String.ofList (c :: w) := by
    apply String.toList_inj.mp
    simp
  simp only [pushAll, push, htoken, List.length_cons]
  rw [Nat.add_assoc, Nat.add_comm 1]

theorem skip_nil (s : Scan) : s.skip [] = s := rfl

theorem skip_advance (s : Scan) (c : Char) (w : List Char) :
    s.advance.skip w = s.skip (c :: w) := by
  simp only [skip, advance, List.length_cons]
  rw [Nat.add_assoc, Nat.add_comm 1]

theorem ahead_pushAll (h : s.ahead = w ++ r) : (s.pushAll w).ahead = r :=
  ahead_of_read h rfl rfl

theorem ahead_skip (h : s.ahead = w ++ r) : (s.skip w).ahead = r :=
  ahead_of_read h rfl rfl

section Parts

variable {step : Scan → Step} {measure : Scan → Nat}
  {decreases : ∀ {s s'}, step s = .next s' → measure s' < measure s}
  {state : ScanState} {p : Char → Prop}

/-- A state that reads every character of a kind into the token reads a word of them. -/
theorem run_pushAll
    (hstep : ∀ t c r, t.state = state → t.ahead = c :: r → p c → step t = .next (t.push c))
    (hstate : s.state = state) (h : s.ahead = w ++ r) (hw : ∀ c ∈ w, p c) :
    run step measure decreases s = run step measure decreases (s.pushAll w) := by
  induction w generalizing s with
  | nil => rw [pushAll_nil]
  | cons c w ih =>
    rw [run_of_next (hstep s c (w ++ r) hstate h (hw c List.mem_cons_self)), ← pushAll_push]
    exact ih hstate (ahead_push h) fun d hd => hw d (List.mem_cons_of_mem c hd)

/-- A state that passes over every character of a kind passes over a run of them. -/
theorem run_skip
    (hstep : ∀ t c r, t.state = state → t.ahead = c :: r → p c → step t = .next t.advance)
    (hstate : s.state = state) (h : s.ahead = w ++ r) (hw : ∀ c ∈ w, p c) :
    run step measure decreases s = run step measure decreases (s.skip w) := by
  induction w generalizing s with
  | nil => rw [skip_nil]
  | cons c w ih =>
    rw [run_of_next (hstep s c (w ++ r) hstate h (hw c List.mem_cons_self)), ← skip_advance s c]
    exact ih hstate (ahead_advance h) fun d hd => hw d (List.mem_cons_of_mem c hd)

end Parts

/-! ## The two phases -/

/-- The loop of the first phase. -/
def descend (mode : ScanMode) (s : Scan) : Scan :=
  run (descentStep mode) descentMeasure descentMeasure_lt s

/-- The loop of the second phase. -/
def readForm (form : Form) (mode : ScanMode) (s : Scan) : Scan :=
  run (parameterStep form mode) (parameterMeasure form) parameterMeasure_lt s

section Forms

variable {form : Form} {mode : ScanMode}

theorem readForm_of_next (h : parameterStep form mode s = .next s') :
    readForm form mode s = readForm form mode s' :=
  run_of_next h

theorem readForm_of_stop (h : parameterStep form mode s = .stop s') :
    readForm form mode s = s' :=
  run_of_stop h

theorem readForm_of_fail {e : GrammarError} (h : parameterStep form mode s = .fail s' e) :
    readForm form mode s = s'.fail e :=
  run_of_fail h

end Forms

/-- The scan in front of the first parameter. -/
def rewind (s : Scan) : Scan :=
  { s with state := .startParameter, cursor := s.tokenStart, token := "" }

theorem parseForm_withForm (s : Scan) (form : Form) (mode : ScanMode) :
    (s.withForm form).parseForm mode =
      if s.isFailed then s.withForm form else readForm form mode (s.withForm form).rewind := rfl

end Scan

end SlashCommand
