import SlashCommand.Proofs.Scan.Bounds
import SlashCommand.Proofs.Scan.Reach

/-!
# How often a scan goes back

A scan makes finitely many steps, and it mostly reads forward.  Only a token that turns out to be no
truth value is read once more, and to read it the cursor goes back to where the token begins.

* `exists_runWithin`: every run comes to a step that ends it.
* `setbacks_le`: if each step pays for going back out of what a scan still holds, the scan goes back
  no more often than it holds at the beginning.
* `scan_ends`: the descent never goes back.  The parameters are read with at most one setback for
  each dash in the text and for each field with a position.

A setback ends a value, and a value is begun by a flag or by a position.  A flag has a dash that the
setback does not return to, since it comes back to the beginning of the value; a position is not
taken twice.  So a scan holds the dashes from there on where it would come back to, the positions
that are not reached, and one more setback while a flag or its value is read.
-/

namespace SlashCommand

namespace Scan

/-! ## Counting setbacks -/

/-- One if the cursor of the second scan is before that of the first one. -/
def setback (s t : Scan) : Nat := if t.cursor < s.cursor then 1 else 0

/-- How often the cursor goes back from one scan to the next. -/
def setbacks : List Scan → Nat
  | s :: t :: rest => setback s t + setbacks (t :: rest)
  | _ => 0

variable {s t : Scan}

theorem setback_of_le (h : s.cursor ≤ t.cursor) : setback s t = 0 :=
  if_neg (Nat.not_lt.mpr h)

theorem setback_le_one (s t : Scan) : setback s t ≤ 1 := by
  unfold setback
  split
  · exact Nat.le_refl 1
  · exact Nat.zero_le 1

section Loop

variable {step : Scan → Step} {measure : Scan → Nat} {last : Scan} {visited : List Scan} {n : Nat}

/-- Every run is one of finitely many steps. -/
theorem exists_runWithin (decreases : ∀ {s s'}, step s = .next s' → measure s' < measure s)
    (s : Scan) :
    ∃ n visited last, runWithin step n s = some (visited, last) ∧
      run step measure decreases s = last := by
  have hends : ∃ n visited last, runWithin step n s = some (visited, last) := by
    induction s using run_induction decreases with
    | next s s' hs ih =>
      obtain ⟨n, visited, last, hrun⟩ := ih
      refine ⟨n + 1, s :: visited, last, ?_⟩
      simp only [runWithin, hs, hrun, Option.map_some]
    | stop s s' hs =>
      refine ⟨1, [s], s', ?_⟩
      simp only [runWithin, hs]
    | fail s s' e hs =>
      refine ⟨1, [s], s'.fail e, ?_⟩
      simp only [runWithin, hs]
  obtain ⟨n, visited, last, hrun⟩ := hends
  exact ⟨n, visited, last, hrun, run_of_runWithin hrun⟩

/-- The first scan that is visited is the one that the run begins with. -/
theorem exists_cons_of_runWithin (h : runWithin step n s = some (visited, last)) :
    ∃ rest, visited = s :: rest := by
  cases n with
  | zero => cases h
  | succ n =>
    rcases runWithin_succ h with ⟨t, rest, -, -, hvisited⟩ | ⟨hvisited, -⟩
    · exact ⟨rest, hvisited⟩
    · exact ⟨[], hvisited⟩

/-- If every step pays for a setback out of what the scan holds, the run has no more setbacks than
are held at its beginning. -/
theorem setbacks_le (inv : Scan → Prop) (held : Scan → Nat)
    (kept : ∀ s, inv s → inv (step s).scan)
    (paid : ∀ s, inv s → setback s (step s).scan + held (step s).scan ≤ held s) (hs : inv s)
    (h : runWithin step n s = some (visited, last)) :
    setbacks (visited ++ [last]) ≤ held s := by
  induction n generalizing s visited with
  | zero => cases h
  | succ n ih =>
    have hkept := kept s hs
    have hpaid := paid s hs
    rcases runWithin_succ h with ⟨t, rest, hstep, hrest, rfl⟩ | ⟨rfl, hstop | ⟨t, e, hfail, rfl⟩⟩
    · rw [hstep] at hkept hpaid
      have hbehind : setbacks (rest ++ [last]) ≤ held t := ih hkept hrest
      obtain ⟨rest', rfl⟩ := exists_cons_of_runWithin hrest
      exact Nat.le_trans (Nat.add_le_add_left hbehind _) hpaid
    · rw [hstop] at hpaid
      exact Nat.le_trans (Nat.le_add_right _ _) hpaid
    · rw [hfail] at hpaid
      exact Nat.le_trans (Nat.le_add_right _ _) hpaid

end Loop

variable {form : Form} {mode : ScanMode} {field : Field} {i : Nat} {c : Char} {r : List Char}

/-! ## The descent -/

theorem setbacks_descent {n : Nat} {visited : List Scan} {last : Scan}
    (h : runWithin (descentStep mode) n s = some (visited, last)) :
    setbacks (visited ++ [last]) = 0 := by
  refine Nat.le_zero.mp (setbacks_le (fun _ => True) (fun _ => 0) (fun _ _ => trivial) ?_ trivial h)
  intro t _
  exact Nat.le_of_eq (setback_of_le (descentCase_of_eq rfl).cursor_le)

/-! ## What a scan holds -/

/-- A flag or a value outside brackets is being read. -/
def readsValue : ScanState → Bool
  | .flagDash => true
  | .flagName => true
  | .value _ _ => true
  | _ => false

/-- A value outside brackets is being read, or has just been read to its end. -/
def inOpenValue : ScanState → Bool
  | .value _ .bare => true
  | .value _ (.quoted _) => true
  | .value _ .endBare => true
  | .value _ (.endQuoted _) => true
  | _ => false

/-- The position that the scan would come back to. -/
def returnPoint (s : Scan) : Nat := if inOpenValue s.state then s.tokenStart else s.cursor

/-- The setbacks that a scan can still have. -/
def held (form : Form) (s : Scan) : Nat :=
  (s.text.drop s.returnPoint).count '-' + s.openPositions form + (readsValue s.state).toNat

theorem returnPoint_of_inOpenValue (h : inOpenValue s.state = true) :
    s.returnPoint = s.tokenStart :=
  if_pos h

theorem returnPoint_of_outside (h : inOpenValue s.state = false) : s.returnPoint = s.cursor :=
  if_neg (by simp [h])

theorem returnPoint_le (h : s.tokenStart ≤ s.cursor) : s.returnPoint ≤ s.cursor := by
  unfold returnPoint
  split
  · exact h
  · exact Nat.le_refl _

theorem count_drop_le (text : List Char) {m n : Nat} (h : m ≤ n) :
    (text.drop n).count c ≤ (text.drop m).count c :=
  (List.drop_sublist_drop_left text h).count_le c

/-- From the first scan to the second one the point of return stays or moves on, and a setback is
paid for. -/
structure Pays (form : Form) (s t : Scan) : Prop where
  returnPoint_le : s.returnPoint ≤ t.returnPoint
  setback_le : setback s t + t.held form ≤ s.held form

/-- A step that goes forward pays for a value that it begins only. -/
theorem paid_of_le (htext : t.text = s.text) (hcursor : s.cursor ≤ t.cursor)
    (hpoint : s.returnPoint ≤ t.returnPoint)
    (h : t.openPositions form + (readsValue t.state).toNat ≤
      s.openPositions form + (readsValue s.state).toNat) :
    Pays form s t := by
  have hdashes : (t.text.drop t.returnPoint).count '-' ≤ (s.text.drop s.returnPoint).count '-' := by
    rw [htext]
    exact count_drop_le s.text hpoint
  refine ⟨hpoint, ?_⟩
  rw [setback_of_le hcursor, held, held]
  omega

/-- A step that goes forward, and begins no value, pays nothing. -/
theorem paid_of_forward (hstart : s.tokenStart ≤ s.cursor) (htext : t.text = s.text)
    (hpositionals : t.positionals = s.positionals) (hcursor : s.cursor ≤ t.cursor)
    (hvalue : readsValue t.state = true → readsValue s.state = true)
    (htoken : inOpenValue t.state = true → s.returnPoint ≤ t.tokenStart) :
    Pays form s t := by
  have hopen : t.openPositions form = s.openPositions form := by
    rw [openPositions, openPositions, hpositionals]
  have hpoint : s.returnPoint ≤ t.returnPoint := by
    cases ht : inOpenValue t.state with
    | true => exact returnPoint_of_inOpenValue ht ▸ htoken ht
    | false => exact returnPoint_of_outside ht ▸ Nat.le_trans (returnPoint_le hstart) hcursor
  refine paid_of_le htext hcursor hpoint ?_
  rw [hopen]
  refine Nat.add_le_add_left ?_ _
  cases ht : readsValue t.state with
  | false => exact Nat.zero_le _
  | true => exact Nat.le_of_eq (by rw [hvalue ht])

theorem paid_refl (s : Scan) : Pays form s s :=
  paid_of_le rfl (Nat.le_refl _) (Nat.le_refl _) (Nat.le_refl _)

/-! ## Steps -/

/-- A dash pays for a flag. -/
theorem paid_of_dash (hstate : s.state = .startParameter) (hahead : s.ahead = '-' :: r) :
    Pays form s (s.advance.goto .flagDash) := by
  have hbehind : (s.text.drop s.returnPoint).count '-' =
      (s.text.drop (s.cursor + 1)).count '-' + 1 := by
    have hread : s.text.drop (s.cursor + 1) = r := ahead_advance hahead
    have hpoint : s.text.drop s.returnPoint = '-' :: r := by
      rw [returnPoint_of_outside (by rw [hstate]; rfl)]
      exact hahead
    rw [hpoint, hread, List.count_cons_self]
  have hheld : (s.advance.goto .flagDash).held form =
      (s.text.drop (s.cursor + 1)).count '-' + s.openPositions form + 1 := rfl
  have hpoint : s.returnPoint ≤ s.cursor + 1 :=
    returnPoint_of_outside (s := s) (by rw [hstate]; rfl) ▸ Nat.le_succ s.cursor
  refine ⟨hpoint, ?_⟩
  rw [setback_of_le (Nat.le_succ s.cursor), hheld, held, hbehind]
  omega

/-- Fewer positions are open behind a parameter. -/
theorem openPositions_count_le (form : Form) (s : Scan) :
    openPositions form { s with positionals := s.positionals + 1 } ≤ s.openPositions form := by
  refine List.countP_mono_left fun f _ hf => ?_
  simp only [decide_eq_true_eq] at hf ⊢
  omega

/-- The position of a parameter is open in front of it, and no longer behind it. -/
theorem openPositions_count_lt
    (h : form.fields.findIdx? (·.position == ((s.positionals + 1 : Nat) : Int)) = some i) :
    openPositions form { s with positionals := s.positionals + 1 } < s.openPositions form := by
  obtain ⟨hi, hposition, -⟩ := List.findIdx?_eq_some_iff_getElem.mp h
  have hposition := beq_iff_eq.mp hposition
  refine countP_lt_countP (fun f _ hf => ?_) (List.getElem_mem hi) ?_ ?_
  · simp only [decide_eq_true_eq] at hf ⊢
    omega
  · simp only [decide_eq_true_eq]
    omega
  · simp only [decide_eq_true_eq]
    omega

/-- Going back to the beginning of a value ends it. -/
theorem paid_of_rescan (htoken : inOpenValue s.state = true) (field : Field) :
    Pays form s (s.rescan field) := by
  have hreads : readsValue s.state = true := by
    cases hstate : s.state with
    | value i stage => rfl
    | _ => rw [hstate] at htoken; cases htoken
  have hheld : (s.rescan field).held form =
      (s.text.drop s.tokenStart).count '-' + s.openPositions form + 0 := rfl
  have hone := setback_le_one s (s.rescan field)
  refine ⟨Nat.le_of_eq (returnPoint_of_inOpenValue htoken), ?_⟩
  rw [hheld, held, returnPoint_of_inOpenValue htoken, hreads, Bool.toNat_true]
  omega

theorem QuotedMoves.paid {q : Quote} {closed : ScanState} (hmove : QuotedMoves q closed s t)
    (hstart : s.tokenStart ≤ s.cursor) (hvalue : readsValue closed = true → readsValue s.state = true)
    (hclosed : inOpenValue closed = true → inOpenValue s.state = true) : Pays form s t := by
  have hpoint (h : inOpenValue s.state = true) : s.returnPoint ≤ s.tokenStart :=
    Nat.le_of_eq (returnPoint_of_inOpenValue h)
  cases hmove with
  | close =>
    exact paid_of_forward hstart rfl rfl (Nat.le_succ _) hvalue fun h => hpoint (hclosed h)
  | escape => exact paid_of_forward hstart rfl rfl (Nat.le_add_right _ 2) id hpoint
  | plain => exact paid_of_forward hstart rfl rfl (Nat.le_succ _) id hpoint

theorem ValueEndMoves.paid {quoted : Bool} (hmove : ValueEndMoves mode field quoted s t)
    (hstart : s.tokenStart ≤ s.cursor) (htoken : inOpenValue s.state = true) : Pays form s t := by
  cases hmove with
  | rescan => exact paid_of_rescan htoken field
  | close => exact paid_of_forward hstart rfl rfl (Nat.le_refl _) nofun nofun

theorem ValueMoves.paid {stage : ValueStage} (hmove : ValueMoves mode field i s stage t)
    (hstart : s.tokenStart ≤ s.cursor) (hstate : s.state = .value i stage) : Pays form s t := by
  have hreads : readsValue s.state = true := by rw [hstate]; rfl
  have hpoint := returnPoint_le hstart
  have hopen (h : inOpenValue s.state = true) : s.returnPoint ≤ s.tokenStart :=
    Nat.le_of_eq (returnPoint_of_inOpenValue h)
  cases hmove with
  | separatorEnd | begin =>
    exact paid_of_forward hstart rfl rfl (Nat.le_refl _) (fun _ => hreads) nofun
  | equals => exact paid_of_forward hstart rfl rfl (Nat.le_succ _) (fun _ => hreads) nofun
  | gap => exact paid_of_forward hstart rfl rfl (Nat.le_succ _) id fun _ => hpoint
  | startEnd | bare =>
    exact paid_of_forward hstart rfl rfl (Nat.le_refl _) (fun _ => hreads) fun _ => hpoint
  | quote =>
    exact paid_of_forward hstart rfl rfl (Nat.le_succ _) (fun _ => hreads) fun _ => hpoint
  | bracket => exact paid_of_forward hstart rfl rfl (Nat.le_succ _) nofun nofun
  | push => exact paid_of_forward hstart rfl rfl (Nat.le_succ _) id hopen
  | complete =>
    refine paid_of_forward hstart rfl rfl (Nat.le_refl _) (fun _ => hreads) fun _ => hopen ?_
    rw [hstate]
    rfl
  | quoted hquoted =>
    exact hquoted.paid hstart (fun _ => by rw [hstate]; rfl) (fun _ => by rw [hstate]; rfl)
  | endBare hend | endQuoted hend => exact hend.paid hstart (by rw [hstate]; rfl)

/-- A step that goes forward in brackets pays nothing. -/
theorem paid_of_list (hstart : s.tokenStart ≤ s.cursor) (htext : t.text = s.text)
    (hpositionals : t.positionals = s.positionals) (hcursor : s.cursor ≤ t.cursor)
    (hstate : t.state.isListElement = true ∨ ∃ i, t.state = .listEnd i) :
    Pays form s t := by
  have houtside : readsValue t.state = false ∧ inOpenValue t.state = false := by
    rcases hstate with hlist | ⟨i, hend⟩
    · cases ht : t.state with
      | list i stage => exact ⟨rfl, rfl⟩
      | _ => rw [ht] at hlist; cases hlist
    · rw [hend]
      exact ⟨rfl, rfl⟩
  refine paid_of_forward hstart htext hpositionals hcursor (fun h => ?_) (fun h => ?_)
  · rw [houtside.1] at h
    cases h
  · rw [houtside.2] at h
    cases h

theorem ListMoves.paid {stage : ListStage} (hmove : ListMoves field i s stage t)
    (hstart : s.tokenStart ≤ s.cursor) (hstate : s.state = .list i stage) : Pays form s t := by
  have hlist : s.state.isListElement = true := by rw [hstate]; rfl
  cases hmove with
  | gap | push => exact paid_of_list hstart rfl rfl (Nat.le_succ _) (.inl hlist)
  | close => exact paid_of_list hstart rfl rfl (Nat.le_succ _) (.inr ⟨i, rfl⟩)
  | quote | comma => exact paid_of_list hstart rfl rfl (Nat.le_succ _) (.inl rfl)
  | begin | startEnd | bare | complete | append =>
    exact paid_of_list hstart rfl rfl (Nat.le_refl _) (.inl rfl)
  | quoted hquoted => exact hquoted.paid hstart nofun nofun

/-- A move pays for going back. -/
theorem Moves.paid (hmove : Moves form mode s t) (hstart : s.tokenStart ≤ s.cursor) :
    Pays form s t := by
  have hpoint := returnPoint_le hstart
  cases hmove with
  | dash hstate hahead => exact paid_of_dash hstate hahead
  | positional hstate _ _ hi =>
    have houtside : s.returnPoint = s.cursor := returnPoint_of_outside (by rw [hstate]; rfl)
    refine paid_of_le rfl (Nat.le_refl _) (Nat.le_of_eq houtside) ?_
    rw [hstate]
    exact openPositions_count_lt hi
  | rest hstate =>
    have houtside : s.returnPoint = s.cursor := returnPoint_of_outside (by rw [hstate]; rfl)
    refine paid_of_le rfl (Nat.le_refl _) (Nat.le_of_eq houtside) ?_
    rw [hstate]
    exact openPositions_count_le form s
  | gap => exact paid_of_forward hstart rfl rfl (Nat.le_succ _) id fun _ => hpoint
  | begin | listEnd => exact paid_of_forward hstart rfl rfl (Nat.le_refl _) nofun nofun
  | secondDash hstate =>
    exact paid_of_forward hstart rfl rfl (Nat.le_succ _) (fun _ => by rw [hstate]; rfl) nofun
  | singleDash hstate | flag hstate =>
    exact paid_of_forward hstart rfl rfl (Nat.le_refl _) (fun _ => by rw [hstate]; rfl) nofun
  | @name c _ hstate =>
    have hstate' : (s.push c).state = .flagName := hstate
    refine paid_of_forward hstart rfl rfl (Nat.le_succ _) id fun htoken => ?_
    rw [hstate'] at htoken
    cases htoken
  | value _ hstate hvalue => exact hvalue.paid hstart hstate
  | list _ hstate hlist => exact hlist.paid hstart hstate

theorem CutsQuotation.paid {q : Quote} (hcut : CutsQuotation q s t)
    (hstart : s.tokenStart ≤ s.cursor) : Pays form s t := by
  cases hcut with
  | nil => exact paid_refl s
  | backslash =>
    exact paid_of_forward hstart rfl rfl (Nat.le_succ _) id fun h =>
      Nat.le_of_eq (returnPoint_of_inOpenValue h)

/-- Where a scan stops it has not gone back. -/
theorem Stops.paid (hstops : Stops form mode s t) (hstart : s.tokenStart ≤ s.cursor)
    (hend : s.cursor ≤ s.text.length) : Pays form s t := by
  have hpoint := returnPoint_le hstart
  cases hstops with
  | startParameter | separator | element | elementSeparator | listEnd | close =>
    exact paid_of_forward hstart rfl rfl (Nat.le_refl _) id fun _ => hpoint
  | parameterSeparator => exact paid_of_forward hstart rfl rfl (Nat.le_refl _) nofun nofun
  | flagName | endBare | endQuoted | bareElement => exact paid_refl s
  | quotedValue _ _ hcut | quotedElement _ _ hcut => exact hcut.paid hstart
  | rest _ hstate =>
    refine paid_of_forward hstart rfl rfl hend id fun htoken => ?_
    have hrest : inOpenValue s.state = true := htoken
    rw [hstate] at hrest
    cases hrest

theorem QuotedFails.paid {q : Quote} {e : GrammarError} (hfails : QuotedFails mode q s t e)
    (hstart : s.tokenStart ≤ s.cursor) : Pays form s t := by
  cases hfails with
  | empty => exact paid_refl s
  | cut _ hcut => exact hcut.paid hstart

/-- Nor has it where it fails. -/
theorem Fails.paid {e : GrammarError} (hfails : Fails form mode s t e)
    (hstart : s.tokenStart ≤ s.cursor) : Pays form s t := by
  have hpoint := returnPoint_le hstart
  cases hfails with
  | position =>
    refine paid_of_le rfl (Nat.le_refl _) (Nat.le_refl _) ?_
    exact Nat.add_le_add_right (openPositions_count_le form s) _
  | equals | blank | listCut | emptyElement | behindList =>
    exact paid_of_forward hstart rfl rfl (Nat.le_refl _) id fun _ => hpoint
  | quotedValue _ hquoted | quotedElement _ hquoted => exact hquoted.paid hstart
  | flag | behindQuotation | missing | elementCut | noElement | inElement | behindElement =>
    exact paid_refl s

/-- Every step that reads parameters pays for going back. -/
theorem paid_parameterStep {text : List Char} (h : Reading form text s) :
    Pays form s (parameterStep form mode s).scan := by
  have hend : s.cursor ≤ s.text.length := h.text_eq.symm ▸ h.cursor_le
  exact scan_parameterStep (fun _ hmove => hmove.paid h.tokenStart_le)
    (fun _ hstops => hstops.paid h.tokenStart_le hend)
    (fun _ _ hfails => hfails.paid h.tokenStart_le) (paid_refl s)

/-! ## Whole runs -/

/-- Reading parameters behind the end of the text is a single step. -/
theorem setbacks_of_outside {n : Nat} {visited : List Scan} {last : Scan}
    (hstart : s.text.length < s.tokenStart)
    (h : runWithin (parameterStep form mode) n s.rewind = some (visited, last)) :
    setbacks (visited ++ [last]) = 0 := by
  have hnone : s.rewind.peek? = none := List.getElem?_eq_none (Nat.le_of_lt hstart)
  have hstop : parameterStep form mode s.rewind = .stop s.rewind.beginToken := by
    show parameterStartStep form s.rewind = _
    rw [parameterStartStep, hnone]
  cases n with
  | zero => cases h
  | succ n =>
    rcases runWithin_succ h with ⟨t, rest, hstep, -⟩ | ⟨rfl, hend | ⟨t, e, hfail, -⟩⟩
    · rw [hstop] at hstep
      cases hstep
    · obtain rfl := Step.stop.inj (hstop.symm.trans hend)
      exact setback_of_le (Nat.le_refl _)
    · rw [hstop] at hfail
      cases hfail

/-- Where no parameter is read yet, the dashes and the positions of the form are held. -/
theorem held_rewind (s : Scan) :
    s.rewind.held form ≤ (s.text.drop s.tokenStart).count '-' +
      form.fields.countP Field.isPositional := by
  have hopen : s.openPositions form ≤ form.fields.countP Field.isPositional := by
    refine List.countP_mono_left fun f _ hf => ?_
    simp only [Field.isPositional, decide_eq_true_eq] at hf ⊢
    omega
  exact Nat.add_le_add_left hopen _

theorem setbacks_parameters {n : Nat} {visited : List Scan} {last : Scan}
    (h : runWithin (parameterStep form mode) n s.rewind = some (visited, last)) :
    setbacks (visited ++ [last]) ≤ (s.text.drop s.tokenStart).count '-' +
      form.fields.countP Field.isPositional := by
  by_cases hstart : s.tokenStart ≤ s.text.length
  · refine Nat.le_trans ?_ (held_rewind s)
    exact setbacks_le (Reading form s.text) (held form) (fun _ => reading_parameterStep)
      (fun _ ht => (paid_parameterStep ht).setback_le) (Reading.rewind hstart) h
  · rw [setbacks_of_outside (Nat.lt_of_not_le hstart) h]
    exact Nat.zero_le _

/-- **Every scan ends.**  Whatever the bindings, the form and the mode are, the descent comes to its
last step without going back, and so does the reading of parameters, which goes back no more often
than there are dashes in the text from the parameters on and fields with a position in the form. -/
theorem scan_ends (s : Scan) (bindings : List Binding) (form : Form) (mode : ScanMode) :
    (∃ n visited last,
      runWithin (descentStep mode) n { s with candidates := bindings } = some (visited, last) ∧
        s.matchBinding bindings mode =
          (if s.isFailed then s else if bindings.isEmpty then s.fail .noBindings
            else matched mode last) ∧
        setbacks (visited ++ [last]) = 0) ∧
    ∃ n visited last,
      runWithin (parameterStep form mode) n (s.withForm form).rewind = some (visited, last) ∧
        (s.withForm form).parseForm mode =
          (if s.isFailed then s.withForm form else last) ∧
        setbacks (visited ++ [last]) ≤
          (s.text.drop s.tokenStart).count '-' + form.fields.countP Field.isPositional := by
  constructor
  · obtain ⟨n, visited, last, hrun, hdescend⟩ : ∃ n visited last,
        runWithin (descentStep mode) n { s with candidates := bindings } = some (visited, last) ∧
          descend mode { s with candidates := bindings } = last :=
      exists_runWithin descentMeasure_lt _
    refine ⟨n, visited, last, hrun, ?_, setbacks_descent hrun⟩
    rw [← hdescend]
    rfl
  · obtain ⟨n, visited, last, hrun, hread⟩ : ∃ n visited last,
        runWithin (parameterStep form mode) n (s.withForm form).rewind = some (visited, last) ∧
          readForm form mode (s.withForm form).rewind = last :=
      exists_runWithin parameterMeasure_lt _
    have hback := setbacks_parameters hrun
    refine ⟨n, visited, last, hrun, ?_, hback⟩
    rw [parseForm_withForm, ← hread]

end Scan

end SlashCommand
