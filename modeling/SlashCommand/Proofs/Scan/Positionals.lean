import SlashCommand.Proofs.Scan.Setbacks

/-!
# How many parameters are counted

A scan counts the parameters without a flag, and each takes the position of its number.  A position
is taken once, also where a token is read a second time, and the first parameter that finds no
position either takes the rest of the line or ends the scan.  So a scan counts at most one parameter
more than the form has fields with a position (`positionals_parseForm_le`), and the counter fits any
machine word that these fields can be counted in.
-/

namespace SlashCommand

namespace Scan

variable {form : Form} {mode : ScanMode} {field : Field} {s t : Scan} {i bound : Nat}
  {e : GrammarError}

/-! ## Steps -/

theorem QuotedMoves.positionals_eq {q : Quote} {closed : ScanState}
    (hmove : QuotedMoves q closed s t) : t.positionals = s.positionals := by
  cases hmove with
  | close | escape | plain => rfl

theorem ValueMoves.positionals_eq {stage : ValueStage} (hmove : ValueMoves mode field i s stage t) :
    t.positionals = s.positionals := by
  cases hmove with
  | quoted hquoted => exact hquoted.positionals_eq
  | endBare hend | endQuoted hend =>
    cases hend with
    | rescan | close => rfl
  | _ => rfl

theorem ListMoves.positionals_eq {stage : ListStage} (hmove : ListMoves field i s stage t) :
    t.positionals = s.positionals := by
  cases hmove with
  | quoted hquoted => exact hquoted.positionals_eq
  | _ => rfl

/-- A move that counts a parameter takes a position that is open, or the rest of the line. -/
theorem Moves.positionals_cases (hmove : Moves form mode s t) :
    t.positionals = s.positionals ∨
      t.positionals = s.positionals + 1 ∧
        (t.openPositions form < s.openPositions form ∨
          t.openPositions form ≤ s.openPositions form ∧ ∃ i, t.state = .rest i) := by
  cases hmove with
  | positional _ _ _ hi => exact .inr ⟨rfl, .inl (openPositions_count_lt hi)⟩
  | rest => exact .inr ⟨rfl, .inr ⟨openPositions_count_le form s, _, rfl⟩⟩
  | value _ _ hvalue => exact .inl hvalue.positionals_eq
  | list _ _ hlist => exact .inl hlist.positionals_eq
  | _ => exact .inl rfl

/-- Behind the rest of the line nothing moves. -/
theorem Moves.state_ne_rest (hmove : Moves form mode s t) (i : Nat) : s.state ≠ .rest i := by
  intro hrest
  cases hmove with
  | dash hstate | positional hstate | rest hstate | gap hstate | begin hstate | secondDash hstate
  | singleDash hstate | name hstate | flag hstate | value _ hstate | list _ hstate
  | listEnd hstate =>
    rw [hrest] at hstate
    cases hstate

theorem CutsQuotation.positionals_eq {q : Quote} (hcut : CutsQuotation q s t) :
    t.positionals = s.positionals := by
  cases hcut with
  | nil | backslash => rfl

/-- The last step of a scan that stops counts nothing. -/
theorem Stops.positionals_eq (hstops : Stops form mode s t) : t.positionals = s.positionals := by
  cases hstops with
  | quotedValue _ _ hcut | quotedElement _ _ hcut => exact hcut.positionals_eq
  | _ => rfl

/-- That of a scan that fails counts the parameter that has no position. -/
theorem Fails.positionals_cases (hfails : Fails form mode s t e) :
    t.positionals = s.positionals ∨
      t.positionals = s.positionals + 1 ∧ s.state = .startParameter := by
  cases hfails with
  | position hstate => exact .inr ⟨rfl, hstate⟩
  | quotedValue _ hquoted | quotedElement _ hquoted =>
    cases hquoted with
    | empty => exact .inl rfl
    | cut _ hcut => exact .inl hcut.positionals_eq
  | _ => exact .inl rfl

/-! ## Runs -/

/-- The parameters that are counted and the positions that are open stay below the bound until the
rest of the line is taken. -/
structure CountsTo (form : Form) (bound : Nat) (s : Scan) : Prop where
  le : s.positionals + s.openPositions form ≤ bound
  lt : (∀ i, s.state ≠ .rest i) → s.positionals + s.openPositions form < bound

theorem Moves.countsTo (hmove : Moves form mode s t) (h : CountsTo form bound s) :
    CountsTo form bound t := by
  have hlt := h.lt hmove.state_ne_rest
  rcases hmove.positionals_cases with heq | ⟨hcount, hopen | ⟨hopen, i, hrest⟩⟩
  · have hopen : t.openPositions form = s.openPositions form := by
      rw [openPositions, openPositions, heq]
    exact ⟨by omega, fun _ => by omega⟩
  · exact ⟨by omega, fun _ => by omega⟩
  · exact ⟨by omega, fun hne => absurd hrest (hne i)⟩

/-- A run counts one parameter more than there are positions open, at most. -/
theorem positionals_readForm_le (form : Form) (mode : ScanMode) (s : Scan) :
    (readForm form mode s).positionals ≤ s.positionals + s.openPositions form + 1 := by
  refine run_invariant (CountsTo form (s.positionals + s.openPositions form + 1))
    (fun t => t.positionals ≤ s.positionals + s.openPositions form + 1) ?_ ?_ ?_
    ⟨Nat.le_succ _, fun _ => Nat.lt_succ_self _⟩
  · exact fun u v hu hstep => (moves_of_parameterStep hstep).countsTo hu
  · intro u v hu hstop
    have hle := hu.le
    rcases stops_of_parameterStep hstop with hstops | ⟨-, rfl⟩
    · have heq := hstops.positionals_eq
      omega
    · omega
  · intro u v e hu hfail
    have hle := hu.le
    show v.positionals ≤ _
    rcases (fails_of_parameterStep hfail).positionals_cases with heq | ⟨hcount, hstate⟩
    · omega
    · have hlt := hu.lt fun i hrest => by
        rw [hrest] at hstate
        cases hstate
      omega

/-- **Counted parameters.**  Whatever the text, the tree, the form and the modes are, a scan counts
at most one parameter more than the form has fields with a position. -/
theorem positionals_parseForm_le (text : String) (bindings : List Binding) (form : Form)
    (mode mode' : ScanMode) :
    ((((ofText text).matchBinding bindings mode).withForm form).parseForm mode').positionals ≤
      form.fields.countP Field.isPositional + 1 := by
  set s := (ofText text).matchBinding bindings mode with hs
  have hzero : s.positionals = 0 := (sameInput_matchBinding (ofText text) bindings mode).positionals
  rw [parseForm_withForm]
  split
  · exact Nat.le_trans (Nat.le_of_eq hzero) (Nat.zero_le _)
  · have hread := positionals_readForm_le form mode' (s.withForm form).rewind
    have hopen : (s.withForm form).rewind.openPositions form =
        form.fields.countP Field.isPositional := by
      refine List.countP_congr fun f _ => ?_
      have hcount : (s.withForm form).rewind.positionals = 0 := hzero
      simp [Field.isPositional, hcount]
    have hcount : (s.withForm form).rewind.positionals = 0 := hzero
    omega

end Scan

end SlashCommand
