import SlashCommand.Proofs.Scan.Run

/-!
# How a descent goes on

`DescentCase` is the first phase of a scan as a relation: one case for each way in which a step goes
on, stops or fails, with what it finds next in the text and with the scan that it leads to.
`descentCase_of_eq` says that a step does nothing else.

From it by cases follows what a descent keeps: the text and everything about parameters
(`SameInput`), and that the token begins at or before the cursor, which stays in the text
(`InBounds`).  It also never comes back from what it has read (`Behind`), so that the parameters
begin where its last token does.
-/

namespace SlashCommand

namespace Scan

variable {mode : ScanMode} {s : Scan} {step : Step} {c : Char}

/-! ## Single steps -/

/-- A step of the descent. -/
inductive DescentCase (mode : ScanMode) (s : Scan) : Step → Prop
  | slash : s.state = .start → s.peek? = some '/' →
      DescentCase mode s (.next (s.advance.beginToken.goto .command))
  | noSlash : s.state = .start → s.peek? ≠ some '/' → DescentCase mode s (.fail s .noSlashStart)
  | typing : s.state = .command → s.peek? = none → mode = .autocomplete →
      DescentCase mode s (.stop s)
  | lastToken : s.state = .command → s.peek? = none → mode ≠ .autocomplete →
      DescentCase mode s (.next (s.goto .endCommand))
  | endToken {c : Char} : s.state = .command → s.peek? = some c → Text.isBlank c = true →
      DescentCase mode s (.next (s.goto .endCommand))
  | push {c : Char} : s.state = .command → s.peek? = some c → Text.isBlank c = false →
      DescentCase mode s (.next (s.push c))
  | enter {b : Binding} : s.state = .endCommand → Binding.find? s.candidates s.token = some b →
      DescentCase mode s (.next ((s.enter b).goto .commandSeparator))
  | unmatched : s.state = .endCommand → Binding.find? s.candidates s.token = none →
      DescentCase mode s (.stop s)
  | separatorEnd : s.state = .commandSeparator → s.peek? = none →
      DescentCase mode s (.stop (s.beginToken.goto .command))
  | gap {c : Char} : s.state = .commandSeparator → s.peek? = some c → Text.isBlank c = true →
      DescentCase mode s (.next s.advance)
  | begin {c : Char} : s.state = .commandSeparator → s.peek? = some c → Text.isBlank c = false →
      DescentCase mode s (.next (s.beginToken.goto .command))
  | outside : s.state ≠ .start → s.state ≠ .command → s.state ≠ .endCommand →
      s.state ≠ .commandSeparator → DescentCase mode s (.stop s)

theorem descentCase_of_eq (hstep : descentStep mode s = step) : DescentCase mode s step := by
  subst hstep
  unfold descentStep
  split
  case h_1 hstate =>
    split
    · exact .slash hstate (by assumption)
    · exact .noSlash hstate (by assumption)
  case h_2 hstate =>
    split
    · split
      · exact .typing hstate (by assumption) (by assumption)
      · exact .lastToken hstate (by assumption) (by assumption)
    · split
      · exact .endToken hstate (by assumption) (by assumption)
      · exact .push hstate (by assumption) (Bool.eq_false_iff.mpr (by assumption))
  case h_3 hstate =>
    split
    · exact .enter hstate (by assumption)
    · exact .unmatched hstate (by assumption)
  case h_4 hstate =>
    split
    · exact .separatorEnd hstate (by assumption)
    · split
      · exact .gap hstate (by assumption) (by assumption)
      · exact .begin hstate (by assumption) (Bool.eq_false_iff.mpr (by assumption))
  case h_5 hstart hcommand hend hseparator =>
    exact .outside hstart hcommand hend hseparator

/-! ## What the descent leaves alone -/

/-- The scans have the same text, and what was found about parameters is the same. -/
structure SameInput (s t : Scan) : Prop where
  text : t.text = s.text
  positionals : t.positionals = s.positionals
  values : t.values = s.values

namespace SameInput

theorem refl (s : Scan) : SameInput s s := ⟨rfl, rfl, rfl⟩

theorem trans {s t u : Scan} (h : SameInput s t) (h' : SameInput t u) : SameInput s u where
  text := h'.text.trans h.text
  positionals := h'.positionals.trans h.positionals
  values := h'.values.trans h.values

end SameInput

/-- A step of the descent reads no parameter. -/
theorem DescentCase.sameInput (hcase : DescentCase mode s step) : SameInput s step.scan := by
  cases hcase <;> exact ⟨rfl, rfl, rfl⟩

theorem sameInput_descend (mode : ScanMode) (s : Scan) : SameInput s (descend mode s) := by
  refine run_preserves (SameInput s) ?_ ?_ (SameInput.refl s)
  · exact fun t ht => ht.trans (descentCase_of_eq rfl).sameInput
  · exact fun t e ht => ⟨ht.text, ht.positionals, ht.values⟩

/-- Matching a binding reads no parameter. -/
theorem sameInput_matchBinding (s : Scan) (bindings : List Binding) (mode : ScanMode) :
    SameInput s (s.matchBinding bindings mode) := by
  unfold matchBinding
  split
  · exact SameInput.refl s
  · split
    · exact ⟨rfl, rfl, rfl⟩
    · have hdescend := sameInput_descend mode { s with candidates := bindings }
      have hkept : SameInput s (descend mode { s with candidates := bindings }) :=
        ⟨hdescend.text, hdescend.positionals, hdescend.values⟩
      dsimp only
      split
      · exact hkept
      · exact ⟨hkept.text, hkept.positionals, hkept.values⟩

theorem DescentCase.form_eq (hcase : DescentCase mode s step) :
    step.scan.form = s.form := by
  cases hcase <;> rfl

/-- A descent reads no form. -/
theorem form_matchBinding (command : String) (bindings : List Binding) (mode : ScanMode) :
    ((ofText command).matchBinding bindings mode).form = none := by
  rw [matchBinding, if_neg (by exact Bool.false_ne_true)]
  split
  · rfl
  · have hform : (descend mode { ofText command with candidates := bindings }).form = none :=
      run_preserves (fun t => t.form = none)
        (fun t ht => (descentCase_of_eq rfl).form_eq.trans ht) (fun t e ht => ht) rfl
    dsimp only
    split
    · exact hform
    · exact hform

/-! ## Where a descent stands in its text -/

/-- The token of the scan begins at or before its cursor, and the cursor is in the text. -/
structure InBounds (text : List Char) (s : Scan) : Prop where
  text_eq : s.text = text
  tokenStart_le : s.tokenStart ≤ s.cursor
  cursor_le : s.cursor ≤ text.length

namespace InBounds

variable {text : List Char}

/-- Only the text, the cursor and the beginning of the token count. -/
theorem congr {t : Scan} (h : InBounds text s) (htext : t.text = s.text)
    (hcursor : t.cursor = s.cursor) (hstart : t.tokenStart = s.tokenStart) : InBounds text t where
  text_eq := htext.trans h.text_eq
  tokenStart_le := by rw [hcursor, hstart]; exact h.tokenStart_le
  cursor_le := hcursor ▸ h.cursor_le

theorem ofText (command : String) : InBounds command.toList (Scan.ofText command) :=
  ⟨rfl, Nat.le_refl 0, Nat.zero_le _⟩

theorem tokenStart_le_length (h : InBounds text s) : s.tokenStart ≤ text.length :=
  Nat.le_trans h.tokenStart_le h.cursor_le

theorem fail (h : InBounds text s) (e : GrammarError) : InBounds text (s.fail e) :=
  h.congr rfl rfl rfl

theorem advance (h : InBounds text s) (hc : s.peek? = some c) : InBounds text s.advance where
  text_eq := h.text_eq
  tokenStart_le := Nat.le_succ_of_le h.tokenStart_le
  cursor_le := h.text_eq ▸ cursor_lt_of_peek? hc

theorem beginToken (h : InBounds text s) : InBounds text s.beginToken where
  text_eq := h.text_eq
  tokenStart_le := Nat.le_refl s.cursor
  cursor_le := h.cursor_le

end InBounds

theorem DescentCase.inBounds {text : List Char} (hcase : DescentCase mode s step)
    (h : InBounds text s) : InBounds text step.scan := by
  cases hcase with
  | slash _ hc => exact (h.advance hc).beginToken.congr rfl rfl rfl
  | push _ hc => exact (h.advance hc).congr rfl rfl rfl
  | gap _ hc => exact h.advance hc
  | separatorEnd | begin => exact h.beginToken.congr rfl rfl rfl
  | lastToken | endToken | enter => exact h.congr rfl rfl rfl
  | noSlash | typing | unmatched | outside => exact h

theorem InBounds.descend {text : List Char} (h : InBounds text s) :
    InBounds text (Scan.descend mode s) :=
  run_preserves (InBounds text) (fun _ ht => (descentCase_of_eq rfl).inBounds ht)
    (fun _ e ht => ht.fail e) h

theorem InBounds.matchBinding {text : List Char} (h : InBounds text s) (bindings : List Binding)
    (mode : ScanMode) : InBounds text (s.matchBinding bindings mode) := by
  unfold Scan.matchBinding
  split
  · exact h
  · split
    · exact h.fail .noBindings
    · have hdescended : InBounds text (Scan.descend mode { s with candidates := bindings }) :=
        InBounds.descend (h.congr rfl rfl rfl)
      dsimp only
      split
      · exact hdescended
      · exact hdescended.fail _

/-! ## A descent does not go back -/

/-- No step of the descent goes back. -/
theorem DescentCase.cursor_le (hcase : DescentCase mode s step) : s.cursor ≤ step.scan.cursor := by
  cases hcase with
  | slash | push | gap => exact Nat.le_succ _
  | _ => exact Nat.le_refl _

variable {n : Nat}

/-- The descent has come behind the first `n` characters, and the current token begins there or is
yet to begin. -/
def Behind (n : Nat) (s : Scan) : Prop :=
  n ≤ s.cursor ∧ (s.state = .commandSeparator ∨ n ≤ s.tokenStart)

/-- A step does not come back from behind the first characters, and where the descent ends a token
has begun there. -/
def StaysBehind (n : Nat) : Step → Prop
  | .next t => Behind n t
  | .stop t => n ≤ t.tokenStart
  | .fail t _ => n ≤ t.tokenStart

theorem DescentCase.staysBehind (hcase : DescentCase mode s step) (h : Behind n s) :
    StaysBehind n step := by
  obtain ⟨hcursor, hstart⟩ := h
  have hsucc : n ≤ s.cursor + 1 := Nat.le_succ_of_le hcursor
  have hbegun {state : ScanState} (hstate : s.state = state) (hne : state ≠ .commandSeparator) :
      n ≤ s.tokenStart :=
    hstart.resolve_left fun hseparator => hne (hstate.symm.trans hseparator)
  cases hcase with
  | slash => exact ⟨hsucc, .inr hsucc⟩
  | noSlash hstate | typing hstate | unmatched hstate => exact hbegun hstate nofun
  | lastToken hstate | endToken hstate => exact ⟨hcursor, .inr (hbegun hstate nofun)⟩
  | push hstate => exact ⟨hsucc, .inr (hbegun hstate nofun)⟩
  | enter => exact ⟨hcursor, .inl rfl⟩
  | separatorEnd => exact hcursor
  | gap hstate => exact ⟨hsucc, .inl hstate⟩
  | begin => exact ⟨hcursor, .inr hcursor⟩
  | outside _ _ _ hseparator => exact hstart.resolve_left hseparator

theorem Behind.descend (h : Behind n s) (mode : ScanMode) : n ≤ (descend mode s).tokenStart := by
  refine run_invariant (Behind n) (fun t => n ≤ t.tokenStart) ?_ ?_ ?_ h
  · exact fun _ _ hu hstep => (descentCase_of_eq hstep).staysBehind hu
  · exact fun _ _ hu hstep => (descentCase_of_eq hstep).staysBehind hu
  · exact fun _ _ _ hu hstep => (descentCase_of_eq hstep).staysBehind hu

end Scan

end SlashCommand
