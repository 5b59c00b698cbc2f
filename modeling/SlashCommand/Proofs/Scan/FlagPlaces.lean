import SlashCommand.Proofs.Scan.Continuations
import SlashCommand.Proofs.Scan.SplicePoint

/-!
# Where a flag begins

The dashes in front of a flag are not kept in the scan.  They can be found again in the text because
of what stands in front of them: a flag begins where the parameters begin, behind a parameter, or
behind the name of a truth value that is left out, and each of these places comes behind a blank or an
equals sign (`EndsApart`).

`Parted` says so for each state of a scan for typing.  In the name of a flag it says moreover that the
scan has stood in front of the dashes, with the values that it has now, so that another flag could
have been typed there (`FlagBegun`).  A step keeps it (`Parted.next`), and it holds where the
parameters begin (`endsApart_matchBinding`).
-/

namespace SlashCommand

/-- A flag may begin behind the text: it ends with a blank, or with an equals sign. -/
def EndsApart (text : List Char) : Prop := ∃ c, text.getLast? = some c ∧ ¬ IsNameChar c

theorem endsApart_concat {c : Char} (text : List Char) (hc : ¬ IsNameChar c) :
    EndsApart (text ++ [c]) := ⟨c, List.getLast?_concat, hc⟩

theorem not_isNameChar_of_isBlank {c : Char} (hc : Text.isBlank c = true) : ¬ IsNameChar c :=
  fun hname => hname (.inr hc)

namespace Scan

variable {form : Form} {mode : ScanMode} {field : Field} {a s t : Scan} {i : Nat} {c : Char}
  {pre dashes more text : List Char}

/-- The text in front of the cursor, with the next character. -/
theorem take_succ_of_peek? (hc : s.peek? = some c) :
    s.text.take (s.cursor + 1) = s.text.take s.cursor ++ [c] := by
  obtain ⟨hlt, rfl⟩ := List.getElem?_eq_some_iff.mp hc
  exact List.take_succ_eq_append_getElem hlt

theorem endsApart_of_peek? (hc : s.peek? = some c) (hname : ¬ IsNameChar c) :
    EndsApart (s.text.take (s.cursor + 1)) := by
  rw [take_succ_of_peek? hc]
  exact endsApart_concat _ hname

/-! ## Where the parameters begin -/

/-- The next character is a blank. -/
def FacesBlank (s : Scan) : Prop := ∃ c, s.peek? = some c ∧ Text.isBlank c = true

/-- Behind the label of a binding there is a blank in front of the next token. -/
def Gapped (s : Scan) : Prop :=
  match s.state with
  | .start => s.binding = none
  | .command => s.binding = none ∨ EndsApart (s.text.take s.tokenStart)
  | .endCommand => (s.binding = none ∨ EndsApart (s.text.take s.tokenStart)) ∧ s.FacesBlank
  | .commandSeparator => EndsApart (s.text.take s.cursor) ∨ s.FacesBlank
  | _ => False

/-- A descent goes on behind a blank, or ends without a binding or behind a blank. -/
def GappedBy : Step → Prop
  | .next t => Gapped t
  | .stop t => t.binding = none ∨ EndsApart (t.text.take t.tokenStart)
  | .fail t _ => t.binding = none

theorem DescentCase.gappedBy {step : Step} (hcase : DescentCase .autocomplete s step)
    (h : Gapped s) : GappedBy step := by
  unfold Gapped at h
  cases hcase with
  | slash hstate =>
    rw [hstate] at h
    exact .inl h
  | noSlash hstate | typing hstate =>
    rw [hstate] at h
    exact h
  | lastToken _ _ hmode => exact absurd rfl hmode
  | endToken hstate hc hblank =>
    rw [hstate] at h
    exact ⟨h, _, hc, hblank⟩
  | @push c hstate =>
    rw [hstate] at h
    have hstate' : (s.push c).state = .command := hstate
    simp only [GappedBy, Gapped, hstate']
    exact h
  | enter hstate =>
    rw [hstate] at h
    exact .inr h.2
  | unmatched hstate =>
    rw [hstate] at h
    exact h.1
  | separatorEnd hstate hnone =>
    rw [hstate] at h
    refine .inr (h.resolve_right ?_)
    rintro ⟨c, hc, -⟩
    rw [hnone] at hc
    cases hc
  | gap hstate hc hblank =>
    have hstate' : s.advance.state = .commandSeparator := hstate
    simp only [GappedBy, Gapped, hstate']
    exact .inl (endsApart_of_peek? hc (not_isNameChar_of_isBlank hblank))
  | begin hstate hc hblank =>
    rw [hstate] at h
    refine .inr (h.resolve_right ?_)
    rintro ⟨d, hd, hblank'⟩
    obtain rfl := Option.some.inj (hd.symm.trans hc)
    rw [hblank] at hblank'
    cases hblank'
  | outside hstart hcommand hend hseparator =>
    split at h
    · exact absurd (by assumption) hstart
    · exact absurd (by assumption) hcommand
    · exact absurd (by assumption) hend
    · exact absurd (by assumption) hseparator
    · exact h.elim

/-- A descent to a binding ends behind a blank. -/
theorem Gapped.descend (h : Gapped s) :
    (descend .autocomplete s).binding = none ∨
      EndsApart ((descend .autocomplete s).text.take (descend .autocomplete s).tokenStart) := by
  refine run_invariant Gapped (fun t => t.binding = none ∨ EndsApart (t.text.take t.tokenStart))
    ?_ ?_ ?_ h
  · exact fun _ _ hu hstep => (descentCase_of_eq hstep).gappedBy hu
  · exact fun _ _ hu hstep => (descentCase_of_eq hstep).gappedBy hu
  · exact fun _ _ _ hu hstep => .inl ((descentCase_of_eq hstep).gappedBy hu)

/-- The parameters of a command that is matched to a binding while it is typed begin behind a
blank. -/
theorem endsApart_matchBinding {command : String} {bindings : List Binding} {b : Binding}
    (hb : ((ofText command).matchBinding bindings .autocomplete).binding = some b) :
    EndsApart (command.toList.take ((ofText command).matchBinding bindings .autocomplete).tokenStart)
    := by
  have hne : bindings ≠ [] := by
    rintro rfl
    cases hb
  have htext : ((ofText command).matchBinding bindings .autocomplete).text = command.toList :=
    (sameInput_matchBinding (ofText command) bindings .autocomplete).text
  rw [← htext]
  rw [matchBinding_eq_matched hne] at hb ⊢
  rw [(binding_matched _ _).1] at hb
  rw [matched_of_binding hb]
  have hbegin : Gapped { ofText command with candidates := bindings } := rfl
  refine hbegin.descend.resolve_left fun hnone => ?_
  rw [hb] at hnone
  cases hnone

/-! ## The way to a flag -/

/-- A flag has been begun behind the text `pre`: the scan has stood there in front of a parameter, and
has read no value since. -/
structure FlagBegun (form : Form) (a : Scan) (pre : List Char) (s : Scan) : Prop where
  apart : EndsApart pre
  front : ∃ t, Reaches (parameterStep form .autocomplete) a t ∧ t.state = .startParameter ∧
    t.cursor = pre.length ∧ t.positionals = s.positionals ∧ t.values = s.values

/-- What stands in front of a token in a state, so that a flag may begin where a parameter does. -/
def PartedIn (form : Form) (a s : Scan) : ScanState → Prop
  | .startParameter => EndsApart (s.text.take s.cursor)
  | .parameterSeparator => EndsApart (s.text.take s.cursor) ∨ s.FacesBlank
  | .flagDash => ∃ pre, FlagBegun form a pre s ∧ s.text.take s.cursor = pre ++ ['-']
  | .flagName => ∃ pre dashes, FlagBegun form a pre s ∧ s.text.take s.tokenStart = pre ++ dashes ∧
      LeadingDashes dashes (s.text.drop s.tokenStart)
  | .value _ (.separator _) =>
      EndsApart (s.text.take s.cursor) ∨ ∃ c, s.peek? = some c ∧ ¬ IsNameChar c
  | .value _ .start => EndsApart (s.text.take s.cursor)
  | .value _ _ => EndsApart (s.text.take s.tokenStart)
  | _ => True

/-- Tokens stand apart. -/
def Parted (form : Form) (a s : Scan) : Prop := PartedIn form a s s.state

theorem Parted.of_state {state : ScanState} (h : Parted form a s) (hstate : s.state = state) :
    PartedIn form a s state := by
  rwa [Parted, hstate] at h

theorem parted_of_state {state : ScanState} (hstate : s.state = state) (h : PartedIn form a s state) :
    Parted form a s := by
  rwa [Parted, hstate]

/-- A character that no name has is what the text ends with behind it. -/
theorem endsApart_of_ahead {r : List Char} (hahead : s.ahead = c :: r) (hname : ¬ IsNameChar c) :
    EndsApart (s.text.take (s.cursor + 1)) :=
  endsApart_of_peek? (peek?_of_ahead hahead) hname

/-- Where no such character is ahead, it has been read. -/
theorem endsApart_of_isNameChar {r : List Char} (hahead : s.ahead = c :: r) (hname : IsNameChar c)
    (h : EndsApart (s.text.take s.cursor) ∨ ∃ c, s.peek? = some c ∧ ¬ IsNameChar c) :
    EndsApart (s.text.take s.cursor) := by
  refine h.resolve_right ?_
  rintro ⟨d, hd, hnot⟩
  rw [peek?_of_ahead hahead] at hd
  exact hnot (Option.some.inj hd ▸ hname)

/-- Behind a value there is a blank, and in front of one that is taken back there is what was in
front of the value. -/
theorem ValueEndMoves.parted {quoted : Bool} (hmove : ValueEndMoves .autocomplete field quoted s t)
    (hapart : EndsApart (s.text.take s.tokenStart)) (hblank : quoted = true ∨ StartsBlank s.ahead) :
    Parted form a t := by
  cases hmove with
  | rescan => exact hapart
  | @close c r hahead hquoted =>
    refine .inr ⟨c, peek?_of_ahead (s := s) hahead, ?_⟩
    rcases hblank with hmarks | hblank
    · exact hquoted hmarks
    · exact hblank c (by rw [hahead]; rfl)

theorem ValueMoves.parted {stage : ValueStage} (hmove : ValueMoves .autocomplete field i s stage t)
    (hfield : form.fields[i]? = some field) (hstate : s.state = .value i stage)
    (h : Parted form a s) (hspans : Spans form s) : Parted form a t := by
  cases hmove with
  | separatorEnd hexecute => cases hexecute
  | equals hahead => exact .inl (endsApart_of_ahead hahead fun hname => hname (.inl rfl))
  | gap hahead hblank =>
    exact parted_of_state hstate
      (.inl (endsApart_of_ahead hahead (not_isNameChar_of_isBlank hblank)))
  | begin hahead hequals hplain =>
    have hname : IsNameChar _ := not_or.mpr ⟨hequals, by rw [hplain]; exact Bool.false_ne_true⟩
    exact endsApart_of_isNameChar hahead hname (h.of_state hstate)
  | startEnd | quote | bare => exact (h.of_state hstate : EndsApart (s.text.take s.cursor))
  | bracket => trivial
  | push => exact parted_of_state hstate (h.of_state hstate)
  | complete => exact (h.of_state hstate : EndsApart (s.text.take s.tokenStart))
  | quoted hquoted =>
    have hapart : EndsApart (s.text.take s.tokenStart) := h.of_state hstate
    cases hquoted with
    | close => exact hapart
    | escape | plain => exact parted_of_state hstate hapart
  | endBare hend =>
    exact hend.parted (h.of_state hstate) (.inr (hspans.tokenPart hstate rfl hfield).startsBlank)
  | endQuoted hend => exact hend.parted (h.of_state hstate) (.inl rfl)

/-- In brackets nothing is asked. -/
theorem ListMoves.parted {stage : ListStage} (hmove : ListMoves field i s stage t)
    (hstate : s.state = .list i stage) : Parted form a t := by
  cases hmove with
  | gap | push => exact parted_of_state hstate trivial
  | quoted hquoted =>
    cases hquoted with
    | close => trivial
    | escape | plain => exact parted_of_state hstate trivial
  | _ => trivial

/-- A step keeps tokens apart. -/
theorem Parted.next (h : Parted form a s)
    (hreach : Reaches (parameterStep form .autocomplete) a s) (hs : Reading form s.text s)
    (hspans : Spans form s) (hstep : parameterStep form .autocomplete s = .next t) :
    Parted form a t := by
  cases moves_of_parameterStep hstep with
  | dash hstate hahead =>
    have hapart : EndsApart (s.text.take s.cursor) := h.of_state hstate
    have hlength : s.cursor = (s.text.take s.cursor).length := by
      rw [List.length_take, Nat.min_eq_left hs.cursor_le]
    exact ⟨s.text.take s.cursor, ⟨hapart, s, hreach, hstate, hlength, rfl, rfl⟩,
      take_succ_of_peek? (peek?_of_ahead hahead)⟩
  | positional hstate => exact (h.of_state hstate : EndsApart (s.text.take s.cursor))
  | rest => trivial
  | gap hstate hahead hblank =>
    exact parted_of_state hstate
      (.inl (endsApart_of_ahead hahead (not_isNameChar_of_isBlank hblank)))
  | begin hstate hahead hplain =>
    refine (h.of_state hstate : _ ∨ s.FacesBlank).resolve_right ?_
    rintro ⟨d, hd, hblank⟩
    rw [peek?_of_ahead hahead] at hd
    rw [← Option.some.inj hd, hplain] at hblank
    cases hblank
  | secondDash hstate hahead =>
    obtain ⟨pre, hbegun, htake⟩ := h.of_state hstate
    refine ⟨pre, ['-', '-'], ⟨hbegun.apart, hbegun.front⟩, ?_, .inl rfl⟩
    show s.text.take (s.cursor + 1) = _
    rw [take_succ_of_peek? (peek?_of_ahead hahead), htake, List.append_assoc]
    rfl
  | singleDash hstate hdash =>
    obtain ⟨pre, hbegun, htake⟩ := h.of_state hstate
    exact ⟨pre, ['-'], ⟨hbegun.apart, hbegun.front⟩, htake, .inr ⟨rfl, hdash⟩⟩
  | name hstate =>
    obtain ⟨pre, dashes, hbegun, hbefore, hdashes⟩ := h.of_state hstate
    exact parted_of_state hstate ⟨pre, dashes, ⟨hbegun.apart, hbegun.front⟩, hbefore, hdashes⟩
  | flag _ hend =>
    obtain ⟨-, hexecute⟩ | ⟨c, r, hahead, hname⟩ := hend
    · cases hexecute
    · exact .inr ⟨c, peek?_of_ahead (s := s) hahead, hname⟩
  | value hfield hstate hmove => exact hmove.parted hfield hstate h hspans
  | list _ hstate hmove => exact hmove.parted hstate
  | listEnd _ hahead hblank => exact .inr ⟨_, peek?_of_ahead (s := s) hahead, hblank⟩

end Scan

end SlashCommand
