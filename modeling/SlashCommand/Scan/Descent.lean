import SlashCommand.Scan.Basic

/-!
# Descending the command tree

The first phase of a scan.  After the slash, each token that is the label of a binding below the
current one moves the scan to that binding; the first token that is not ends the descent, and it is
where the parameters begin.

The measure of a step is the number of characters not yet read, and among steps that read nothing a
rank.  The ranks run in opposite directions before a blank, where a token has ended, and before any
other character, where one begins.
-/

namespace SlashCommand

namespace Scan

/-- Moves to a binding below the current one.  An app that the binding does not name is that of the
closest ancestor that does. -/
def enter (s : Scan) (b : Binding) : Scan :=
  { s with
    binding := some b
    appId := if b.appId == "" then s.appId else b.appId
    location := s.location ++ "/" ++ b.locationSegment
    candidates := b.bindings }

/-- One step of the descent. -/
def descentStep (mode : ScanMode) (s : Scan) : Step :=
  match s.state with
  | .start =>
    if s.peek? = some '/' then .next (s.advance.beginToken.goto .command)
    else .fail s .noSlashStart
  | .command =>
    match s.peek? with
    | none => if mode = .autocomplete then .stop s else .next (s.goto .endCommand)
    | some c => if Text.isBlank c then .next (s.goto .endCommand) else .next (s.push c)
  | .endCommand =>
    match Binding.find? s.candidates s.token with
    | some b => .next ((s.enter b).goto .commandSeparator)
    | none => .stop s
  | .commandSeparator =>
    match s.peek? with
    | none => .stop (s.beginToken.goto .command)
    | some c => if Text.isBlank c then .next s.advance else .next (s.beginToken.goto .command)
  | _ => .stop s

/-- The next character does not belong to a token. -/
def atTokenEnd (s : Scan) : Bool := s.peek?.all Text.isBlank

/-- The rank of a state among those with the same text before them. -/
def descentRank (s : Scan) : Nat :=
  match s.state with
  | .start => 4
  | .command => if s.atTokenEnd then 3 else 1
  | .endCommand => if s.atTokenEnd then 2 else 3
  | .commandSeparator => if s.atTokenEnd then 1 else 2
  | _ => 0

/-- What each step of the descent decreases. -/
def descentMeasure (s : Scan) : Nat := s.remaining * 5 + s.descentRank

theorem descentRank_le (s : Scan) : s.descentRank ≤ 4 := by
  unfold descentRank
  split
  · exact Nat.le_refl 4
  · split <;> omega
  · split <;> omega
  · split <;> omega
  · exact Nat.zero_le 4

theorem descentMeasure_lt_of_read {s t : Scan} {c : Char} (hc : s.peek? = some c)
    (htext : t.text = s.text) (hcursor : t.cursor = s.cursor + 1) :
    t.descentMeasure < s.descentMeasure := by
  have hlt := cursor_lt_of_peek? hc
  have hrank := t.descentRank_le
  simp only [descentMeasure, remaining, htext, hcursor]
  omega

theorem descentMeasure_lt_of_rank {s t : Scan} (htext : t.text = s.text)
    (hcursor : t.cursor = s.cursor) (hrank : t.descentRank < s.descentRank) :
    t.descentMeasure < s.descentMeasure := by
  simp only [descentMeasure, remaining, htext, hcursor]
  omega

/-- A token is complete at its end. -/
theorem descentRank_complete_lt {s : Scan} (hstate : s.state = .command)
    (hend : s.atTokenEnd = true) : (s.goto .endCommand).descentRank < s.descentRank := by
  have hsame : (s.goto .endCommand).atTokenEnd = true := hend
  have hgoto : (s.goto .endCommand).state = .endCommand := rfl
  simp [descentRank, hstate, hgoto, hend, hsame]

theorem descentRank_enter_lt {s : Scan} (b : Binding) (hstate : s.state = .endCommand) :
    ((s.enter b).goto .commandSeparator).descentRank < s.descentRank := by
  have hsame : ((s.enter b).goto .commandSeparator).atTokenEnd = s.atTokenEnd := rfl
  have hgoto : ((s.enter b).goto .commandSeparator).state = .commandSeparator := rfl
  simp only [descentRank, hstate, hgoto, hsame]
  split <;> omega

/-- A token begins in front of what is no blank. -/
theorem descentRank_begin_lt {s : Scan} (hstate : s.state = .commandSeparator)
    (hbegin : s.atTokenEnd = false) :
    (s.beginToken.goto .command).descentRank < s.descentRank := by
  have hsame : (s.beginToken.goto .command).atTokenEnd = false := hbegin
  have hgoto : (s.beginToken.goto .command).state = .command := rfl
  simp [descentRank, hstate, hgoto, hbegin, hsame]

theorem descentMeasure_lt {mode : ScanMode} {s s' : Scan} (h : s.descentStep mode = .next s') :
    s'.descentMeasure < s.descentMeasure := by
  unfold descentStep at h
  split at h
  · split at h
    · rename_i hc
      cases h
      exact descentMeasure_lt_of_read hc rfl rfl
    · cases h
  · rename_i hstate
    have hcomplete (hend : s.atTokenEnd = true) :
        (s.goto .endCommand).descentMeasure < s.descentMeasure :=
      descentMeasure_lt_of_rank rfl rfl (descentRank_complete_lt hstate hend)
    split at h
    · rename_i hc
      split at h
      · cases h
      · cases h
        exact hcomplete (by rw [atTokenEnd, hc]; rfl)
    · rename_i c hc
      split at h
      · rename_i hblank
        cases h
        exact hcomplete (by rw [atTokenEnd, hc]; exact hblank)
      · cases h
        exact descentMeasure_lt_of_read hc rfl rfl
  · rename_i hstate
    split at h
    · cases h
      exact descentMeasure_lt_of_rank rfl rfl (descentRank_enter_lt _ hstate)
    · cases h
  · rename_i hstate
    split at h
    · cases h
    · rename_i c hc
      split at h
      · cases h
        exact descentMeasure_lt_of_read hc rfl rfl
      · rename_i hplain
        cases h
        have hbegin : s.atTokenEnd = false := by
          rw [atTokenEnd, hc]
          exact Bool.eq_false_iff.mpr hplain
        exact descentMeasure_lt_of_rank rfl rfl (descentRank_begin_lt hstate hbegin)
  · cases h

/-- Descends from the given bindings to the deepest one whose labels start the text.  It is an error
when there is none, unless the first token is still being typed. -/
def matchBinding (s : Scan) (bindings : List Binding) (mode : ScanMode) : Scan :=
  if s.isFailed then s
  else if bindings.isEmpty then s.fail .noBindings
  else
    let s := run (descentStep mode) descentMeasure descentMeasure_lt
      { s with candidates := bindings }
    let typing := mode = .autocomplete ∧ s.state = .command
    if s.isFailed ∨ s.binding.isSome ∨ typing then s
    else s.fail (.noMatchingBinding s.token)

end Scan

end SlashCommand
