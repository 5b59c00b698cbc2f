import SlashCommand.Proofs.Scan.Fails

/-!
# Stored tokens

A token that is stored is never empty, whether it was bare, quoted or the rest of the line: an empty
list is the only value that carries nothing.

Most tokens are not looked at when they are stored.  They are known not to be empty because of the
character that the token began with, or because the closing mark did not follow the opening one at
once.  `TokenBegun` says so for each state, `filled_parameterStep` that every step keeps it, and
`filled_parseForm` what it comes to: whatever is typed, in either mode, no empty token is stored.
-/

namespace SlashCommand

/-- No token of the value is empty. -/
def Value.Filled (v : Value) : Prop := ∀ token ∈ v.tokens, token ≠ ""

/-- No value has an empty token. -/
def Values.Filled (values : Values) : Prop :=
  ∀ (name : String) (v : Value), values[name]? = some v → v.Filled

/-- A value without empty tokens carries nothing only if it is the empty list. -/
theorem Value.Filled.isEmpty_iff {v : Value} (h : v.Filled) : v.isEmpty = true ↔ v = .list [] := by
  cases v with
  | scalar token =>
    have hne : token ≠ "" := h token List.mem_cons_self
    simp [isEmpty, hne]
  | list tokens => simp [isEmpty]

namespace Values.Filled

variable {values : Values} {name : String} {v : Value}

theorem empty : Values.Filled ∅ := by
  intro name v h
  rw [Std.ExtTreeMap.getElem?_empty] at h
  cases h

theorem insert (h : Values.Filled values) (hv : v.Filled) :
    Values.Filled (values.insert name v) := by
  intro name' v' h'
  rw [Std.ExtTreeMap.getElem?_insert] at h'
  split at h'
  · rw [← Option.some.inj h']
    exact hv
  · exact h name' v' h'

end Values.Filled

theorem Value.filled_ofToken {multiselect : Bool} {token : String} (h : token ≠ "") :
    (Value.ofToken multiselect token).Filled := by
  intro token' h'
  have heq : token' = token := by
    cases multiselect with
    | false => exact List.mem_singleton.mp h'
    | true => exact List.mem_singleton.mp h'
  rw [heq]
  exact h

theorem Value.filled_nil : (Value.list []).Filled := fun _ h => absurd h List.not_mem_nil

namespace Scan

/-- The current token will not be empty where it ends, because it has a character, or because of
what is ahead or how far the cursor has come. -/
def TokenBegun (s : Scan) : Prop :=
  match s.state with
  | .value _ (.quoted _) => s.token ≠ "" ∨ s.cursor = s.tokenStart + 1
  | .value _ (.endQuoted _) => s.token ≠ ""
  | .list _ .elementStart => ∃ c, s.peek? = some c ∧ Text.isBlank c = false
  | .list _ .bare =>
    s.token ≠ "" ∨ ∃ c, s.peek? = some c ∧ Text.isBlank c = false ∧ c ≠ ',' ∧ c ≠ ']'
  | .list _ (.quoted _) => s.token ≠ "" ∨ s.cursor = s.tokenStart + 1
  | .list _ .elementEnd => s.token ≠ ""
  | .rest _ => s.peek? ≠ none
  | _ => True

/-- No stored token is empty, nor will the current one be. -/
structure Filled (s : Scan) : Prop where
  values : Values.Filled s.values
  begun : TokenBegun s

/-- A step stores no empty token, and if the run goes on behind it, no later step will. -/
def Step.Filled : Step → Prop
  | .next t => t.Filled
  | .stop t => Values.Filled t.values
  | .fail t _ => Values.Filled t.values

/-- The state is one in which something is asked of the current token. -/
def inToken : ScanState → Bool
  | .value _ (.quoted _) => true
  | .value _ (.endQuoted _) => true
  | .list _ .elementStart => true
  | .list _ .bare => true
  | .list _ (.quoted _) => true
  | .list _ .elementEnd => true
  | .rest _ => true
  | _ => false

variable {form : Form} {mode : ScanMode} {s t : Scan} {field : Field} {i : Nat}

theorem tokenBegun_of_inToken {state : ScanState} (hstate : s.state = state)
    (h : inToken state = false) : TokenBegun s := by
  subst hstate
  unfold TokenBegun
  split
  case h_8 => trivial
  all_goals
    rename_i hstate
    rw [hstate] at h
    cases h

/-- Between tokens it is enough that the values are as they were. -/
theorem Filled.of_values {state : ScanState} (h : s.Filled) (hvalues : t.values = s.values)
    (hstate : t.state = state) (hnot : inToken state = false) : t.Filled :=
  ⟨hvalues ▸ h.values, tokenBegun_of_inToken hstate hnot⟩

/-! ## Moves -/

/-- A quotation that has begun is not empty where it is closed. -/
theorem QuotedMoves.filled {q : Quote} {closed : ScanState} (hmove : QuotedMoves q closed s t)
    (h : Values.Filled s.values) (hbegun : s.token ≠ "" ∨ s.cursor = s.tokenStart + 1)
    (hopen : ∀ t : Scan, t.state = s.state → t.token ≠ "" → TokenBegun t)
    (hclosed : ∀ t : Scan, t.state = closed → t.token ≠ "" → TokenBegun t) : t.Filled := by
  cases hmove with
  | close _ hcursor => exact ⟨h, hclosed _ rfl (hbegun.resolve_right hcursor)⟩
  | @escape c _ => exact ⟨h, hopen _ rfl (push_ne_empty _ c)⟩
  | @plain c _ => exact ⟨h, hopen _ rfl (push_ne_empty _ c)⟩

theorem filled_closeValue (h : Values.Filled s.values) (htoken : s.token ≠ "") :
    Values.Filled (s.closeValue field).values :=
  h.insert (Value.filled_ofToken htoken)

/-- A bare value is stored only if it is not empty, and a quoted one never is. -/
theorem ValueEndMoves.filled {quoted : Bool} (hmove : ValueEndMoves mode field quoted s t)
    (h : Values.Filled s.values) (hquoted : quoted = true → s.token ≠ "") : t.Filled := by
  cases hmove with
  | rescan =>
    have htrue : (Value.scalar "true").Filled := by
      intro token htoken
      rw [List.mem_singleton.mp htoken]
      decide
    exact ⟨h.insert htrue, trivial⟩
  | close _ _ hbare =>
    have htoken : s.token ≠ "" := by
      cases quoted with
      | true => exact hquoted rfl
      | false => exact hbare rfl
    exact ⟨filled_closeValue h htoken, trivial⟩

theorem ValueMoves.filled {stage : ValueStage} (hmove : ValueMoves mode field i s stage t)
    (hstate : s.state = .value i stage) (h : s.Filled) : t.Filled := by
  have hbegun := h.begun
  rw [TokenBegun, hstate] at hbegun
  cases hmove with
  | separatorEnd | equals | begin | startEnd | bare | complete => exact h.of_values rfl rfl rfl
  | gap | push => exact h.of_values rfl hstate rfl
  | quote => exact ⟨h.values, .inr rfl⟩
  | bracket => exact ⟨h.values.insert Value.filled_nil, trivial⟩
  | quoted hquoted =>
    refine hquoted.filled h.values hbegun ?_ ?_
    · intro t ht htoken
      rw [TokenBegun, ht, hstate]
      exact .inl htoken
    · intro t ht htoken
      rw [TokenBegun, ht]
      exact htoken
  | endBare hend => exact hend.filled h.values (absurd · Bool.false_ne_true)
  | endQuoted hend => exact hend.filled h.values fun _ => hbegun

theorem filled_appendTo {values : Values} {name token : String} (h : Values.Filled values)
    (htoken : token ≠ "") : Values.Filled (appendTo name token values) := by
  unfold appendTo
  split
  · rename_i tokens htokens
    refine h.insert fun token' htoken' => ?_
    rcases List.mem_append.mp htoken' with hold | hnew
    · exact h name _ htokens token' hold
    · rw [List.mem_singleton.mp hnew]
      exact htoken
  · exact h

theorem ListMoves.filled {stage : ListStage} (hmove : ListMoves field i s stage t)
    (hstate : s.state = .list i stage) (h : s.Filled) : t.Filled := by
  have hbegun := h.begun
  rw [TokenBegun, hstate] at hbegun
  cases hmove with
  | gap hstage =>
    refine h.of_values rfl hstate ?_
    rcases hstage with rfl | rfl | rfl
    all_goals rfl
  | close | comma => exact h.of_values rfl rfl rfl
  | begin _ hahead hblank => exact ⟨h.values, _, peek?_of_ahead hahead, hblank⟩
  | startEnd hnil =>
    obtain ⟨c, hc, -⟩ := hbegun
    rw [peek?_of_ahead_nil hnil] at hc
    cases hc
  | quote => exact ⟨h.values, .inr rfl⟩
  | bare hahead _ hcomma hclose =>
    obtain ⟨c, hc, hblank⟩ := hbegun
    obtain rfl := Option.some.inj (hc.symm.trans (peek?_of_ahead hahead))
    exact ⟨h.values, .inr ⟨c, hc, hblank, hcomma, hclose⟩⟩
  | @push c =>
    refine ⟨h.values, ?_⟩
    rw [TokenBegun, show (s.push c).state = _ from hstate]
    exact .inl (push_ne_empty _ c)
  | complete hahead hend =>
    refine ⟨h.values, hbegun.resolve_right ?_⟩
    -- the character that ends the token is not the one that it began with
    rintro ⟨c, hc, hblank, hcomma, hbracket⟩
    obtain rfl := Option.some.inj (hc.symm.trans (peek?_of_ahead hahead))
    rcases hend with hend | hend | hend
    · rw [hblank] at hend
      cases hend
    · exact hcomma hend
    · exact hbracket hend
  | quoted hquoted =>
    refine hquoted.filled h.values hbegun ?_ ?_
    · intro t ht htoken
      rw [TokenBegun, ht, hstate]
      exact .inl htoken
    · intro t ht htoken
      rw [TokenBegun, ht]
      exact htoken
  | append => exact ⟨filled_appendTo h.values hbegun, trivial⟩

theorem Moves.filled (hmove : Moves form mode s t) (h : s.Filled) : t.Filled := by
  cases hmove with
  | dash | positional | begin | secondDash | singleDash | flag | listEnd =>
    exact h.of_values rfl rfl rfl
  | gap hstate | name hstate => exact h.of_values rfl hstate rfl
  | rest _ hahead =>
    refine ⟨h.values, ?_⟩
    show s.peek? ≠ none
    rw [peek?_of_ahead hahead]
    exact Option.some_ne_none _
  | value _ hstate hvalue => exact hvalue.filled hstate h
  | list _ hstate hlist => exact hlist.filled hstate h

/-! ## Whole runs -/

/-- Where a scan stops, the token that it stores last is not empty, either. -/
theorem Stops.filled (hstops : Stops form mode s t) (h : s.Filled) : Values.Filled t.values := by
  have hbegun := h.begun
  rw [TokenBegun] at hbegun
  cases hstops with
  | quotedValue _ _ hcut | quotedElement _ _ hcut =>
    rw [hcut.values_eq]
    exact h.values
  | close _ hstate hstage =>
    rw [hstate] at hbegun
    refine filled_closeValue h.values ?_
    rcases hstage with ⟨-, htoken⟩ | ⟨q, rfl⟩
    · exact htoken
    · exact hbegun
  | rest _ hstate =>
    rw [hstate] at hbegun
    refine h.values.insert (Value.filled_ofToken fun hempty => ?_)
    exact hbegun (peek?_of_ahead_nil (by simpa using congrArg String.toList hempty))
  | _ => exact h.values

/-- No step stores an empty token. -/
theorem filled_parameterStep (form : Form) (mode : ScanMode) (h : s.Filled) :
    (parameterStep form mode s).Filled := by
  cases hstep : parameterStep form mode s with
  | next t => exact (moves_of_parameterStep hstep).filled h
  | stop t =>
    obtain hstops | ⟨-, rfl⟩ := stops_of_parameterStep hstep
    · exact hstops.filled h
    · exact h.values
  | fail t e =>
    show Values.Filled t.values
    rw [(fails_of_parameterStep hstep).values_eq]
    exact h.values

/-- No run stores an empty token. -/
theorem filled_readForm (h : s.Filled) : Values.Filled (readForm form mode s).values := by
  refine run_invariant Filled (fun t => Values.Filled t.values) ?_ ?_ ?_ h
  · intro t u ht hu
    have hkept := filled_parameterStep form mode ht
    rwa [hu] at hkept
  · intro t u ht hu
    have hkept := filled_parameterStep form mode ht
    rwa [hu] at hkept
  · intro t u e ht hu
    have hkept := filled_parameterStep form mode ht
    rwa [hu] at hkept

/-- Whatever the text and the form are, reading parameters stores no empty token. -/
theorem filled_parseForm (s : Scan) (mode : ScanMode) (h : Values.Filled s.values) :
    Values.Filled (s.parseForm mode).values := by
  unfold parseForm
  split
  · split
    · exact h
    · exact filled_readForm ⟨h, trivial⟩
  · exact h

end Scan

end SlashCommand
