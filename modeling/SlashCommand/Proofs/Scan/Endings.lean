import SlashCommand.Proofs.Scan.Modes
import SlashCommand.Proofs.Scan.Reach
import SlashCommand.Suggestion.Offer

/-!
# Where a typed command may end

While a command is typed its scan may stop at a place where the command may as well end, as
`Scan.isAtEnd` says.  The scan that executes the command then comes to the same place.

* `sameLeaf_matchBinding`: if the command is matched to a leaf while it is typed, it is matched to
  the same leaf when it is executed, and the parameters begin at the same position.
* `readForm_execute`: if no truth value is cut short on the way, the parameters are read to the same
  scan.

For the second it is not enough that the last value is complete.  Where a truth value is cut short in
front of a blank, the scan for typing takes it as it stands, and the scan for executing reads it
again as the next parameter.
-/

namespace SlashCommand

namespace Scan

variable {form : Form} {mode : ScanMode} {s t : Scan}

/-! ## The descent -/

/-- The state of affairs in a descent: it is below its binding, has no form, and has not failed. -/
structure Descending (s : Scan) : Prop where
  start : s.state = .start → s.binding = none
  candidates : ∀ b, s.binding = some b → s.candidates = b.bindings
  form : s.form = none
  notFailed : s.isFailed = false

/-- What a step of the descent from a scan may be: it goes on, it stops without a form, or the descent
fails at its beginning. -/
def DescendsBy (s : Scan) : Step → Prop
  | .next t => Descending t
  | .stop t => t.form = none ∧ t.isFailed = false
  | .fail t _ => s.state = .start ∧ t = s

theorem DescentCase.descendsBy {step : Step} (hcase : DescentCase mode s step)
    (h : Descending s) : DescendsBy s step := by
  cases hcase with
  | slash | lastToken | endToken => exact ⟨nofun, h.candidates, h.form, rfl⟩
  | noSlash hstate => exact ⟨hstate, rfl⟩
  | push | gap => exact ⟨h.start, h.candidates, h.form, h.notFailed⟩
  | begin => exact ⟨nofun, h.candidates, h.form, rfl⟩
  | enter =>
    refine ⟨nofun, fun b hb => ?_, h.form, rfl⟩
    obtain rfl := Option.some.inj hb
    rfl
  | separatorEnd => exact ⟨h.form, rfl⟩
  | typing | unmatched | outside => exact ⟨h.form, h.notFailed⟩

/-- A step of the descent is the same in both modes, except at the end of a token that may still
grow. -/
theorem descentStep_execute (s : Scan) :
    descentStep .execute s = descentStep .autocomplete s ∨
      descentStep .autocomplete s = .stop s ∧
        descentStep .execute s = .next (s.goto .endCommand) := by
  unfold descentStep
  split
  · exact .inl rfl
  · split
    · exact .inr ⟨if_pos rfl, if_neg (by exact nofun)⟩
    · exact .inl rfl
  · exact .inl rfl
  · exact .inl rfl
  · exact .inl rfl

/-- A complete token below a leaf is left to the parameters. -/
theorem descend_endCommand_of_leaf {b : Binding} (h : Descending s) (hb : s.binding = some b)
    (hleaf : b.isLeaf = true) :
    descend .execute (s.goto .endCommand) = s.goto .endCommand := by
  have hnone : Binding.find? (s.goto .endCommand).candidates (s.goto .endCommand).token = none := by
    show Binding.find? s.candidates s.token = none
    rw [h.candidates b hb, List.isEmpty_iff.mp hleaf]
    rfl
  refine run_of_stop ?_
  have hstate : (s.goto .endCommand).state = .endCommand := rfl
  simp only [descentStep, hstate, hnone]

/-- What the descents of a command in the two modes have in common where the one for typing is at a
leaf: neither has failed, and the parameters begin at the same position. -/
structure SameLeaf (a e : Scan) : Prop where
  form : a.form = none
  leaf : ∀ b, a.binding = some b → b.isLeaf = true →
    a.isFailed = false ∧ e.isFailed = false ∧ e.rewind = a.rewind

/-- Below a leaf there is nothing to find, whether a token is complete or not. -/
theorem descend_sameLeaf (h : Descending s) :
    SameLeaf (descend .autocomplete s) (descend .execute s) := by
  refine run_lockstep Descending SameLeaf ?_ ?_ ?_ h
  · intro u v hu hstep
    refine ⟨?_, (descentCase_of_eq hstep).descendsBy hu⟩
    rcases descentStep_execute u with heq | ⟨hstop, -⟩
    · exact heq.trans hstep
    · rw [hstop] at hstep
      cases hstep
  · intro u v hu hstep
    obtain ⟨hform, hfailed⟩ := (descentCase_of_eq hstep).descendsBy hu
    refine ⟨hform, fun b hb hleaf => ?_⟩
    rcases descentStep_execute u with heq | ⟨hstop, hnext⟩
    · rw [run_of_stop (heq.trans hstep)]
      exact ⟨hfailed, hfailed, rfl⟩
    · obtain rfl := Step.stop.inj (hstop.symm.trans hstep)
      have hend : descend .execute u = u.goto .endCommand :=
        (run_of_next hnext).trans (descend_endCommand_of_leaf hu hb hleaf)
      refine ⟨hfailed, ?_, ?_⟩
      · exact (congrArg isFailed hend).trans rfl
      · exact (congrArg rewind hend).trans rfl
  · intro u v e hu hstep
    obtain ⟨hstate, rfl⟩ := (descentCase_of_eq hstep).descendsBy hu
    refine ⟨hu.form, fun b hb => ?_⟩
    rw [show (v.fail e).binding = none from hu.start hstate] at hb
    cases hb

theorem matched_of_binding {b : Binding} (h : s.binding = some b) : matched mode s = s :=
  if_pos (.inr (.inl (by rw [h]; rfl)))

theorem binding_matched (mode : ScanMode) (s : Scan) :
    (matched mode s).binding = s.binding ∧ (matched mode s).form = s.form := by
  unfold matched
  split
  · exact ⟨rfl, rfl⟩
  · exact ⟨rfl, rfl⟩

theorem SameLeaf.matched {a e : Scan} (h : SameLeaf a e) :
    SameLeaf (a.matched .autocomplete) (e.matched .execute) := by
  refine ⟨(binding_matched _ a).2.trans h.form, fun b hb hb' => ?_⟩
  have hbinding : a.binding = some b := (binding_matched _ a).1.symm.trans hb
  obtain ⟨ha, he, hrewind⟩ := h.leaf b hbinding hb'
  have hexecute : e.binding = some b := (congrArg Scan.binding hrewind).trans hbinding
  rw [matched_of_binding hbinding, matched_of_binding hexecute]
  exact ⟨ha, he, hrewind⟩

/-- A command that is matched to a leaf while it is typed is matched to that leaf when it is
executed. -/
theorem sameLeaf_matchBinding (command : String) (bindings : List Binding) :
    SameLeaf ((ofText command).matchBinding bindings .autocomplete)
      ((ofText command).matchBinding bindings .execute) := by
  have hnot : ¬ (ofText command).isFailed = true := Bool.false_ne_true
  have hnone : ∀ b, (ofText command).binding ≠ some b := fun _ => Option.some_ne_none _ ∘ Eq.symm
  unfold matchBinding
  rw [if_neg hnot, if_neg hnot]
  by_cases hempty : bindings.isEmpty = true
  · rw [if_pos hempty, if_pos hempty]
    exact ⟨rfl, fun b hb => absurd hb (hnone b)⟩
  · rw [if_neg hempty, if_neg hempty]
    have hbegin : Descending { ofText command with candidates := bindings } :=
      ⟨fun _ => rfl, fun b hb => absurd hb (hnone b), rfl, rfl⟩
    exact (descend_sameLeaf hbegin).matched

/-! ## The parameters -/

/-- The scans have the same binding and the same form. -/
structure SameForm (s t : Scan) : Prop where
  binding : t.binding = s.binding
  form : t.form = s.form

theorem QuotedMoves.sameForm {q : Quote} {closed : ScanState} (hmove : QuotedMoves q closed s t) :
    SameForm s t := by
  cases hmove with
  | close | escape | plain => exact ⟨rfl, rfl⟩

theorem Moves.sameForm (hmove : Moves form mode s t) : SameForm s t := by
  cases hmove with
  | value _ _ hvalue =>
    cases hvalue with
    | quoted hquoted => exact hquoted.sameForm
    | endBare hend | endQuoted hend =>
      cases hend with
      | rescan | close => exact ⟨rfl, rfl⟩
    | _ => exact ⟨rfl, rfl⟩
  | list _ _ hlist =>
    cases hlist with
    | quoted hquoted => exact hquoted.sameForm
    | _ => exact ⟨rfl, rfl⟩
  | _ => exact ⟨rfl, rfl⟩

theorem CutsQuotation.sameForm {q : Quote} (hcut : CutsQuotation q s t) : SameForm s t := by
  cases hcut with
  | nil | backslash => exact ⟨rfl, rfl⟩

theorem Stops.sameForm (hstops : Stops form mode s t) : SameForm s t := by
  cases hstops with
  | quotedValue _ _ hcut | quotedElement _ _ hcut => exact hcut.sameForm
  | _ => exact ⟨rfl, rfl⟩

theorem QuotedFails.sameForm {q : Quote} {e : GrammarError} (hfails : QuotedFails mode q s t e) :
    SameForm s t := by
  cases hfails with
  | empty => exact ⟨rfl, rfl⟩
  | cut _ hcut => exact hcut.sameForm

theorem Fails.sameForm {e : GrammarError} (hfails : Fails form mode s t e) : SameForm s t := by
  cases hfails with
  | quotedValue _ hquoted | quotedElement _ hquoted => exact hquoted.sameForm
  | _ => exact ⟨rfl, rfl⟩

/-- Reading parameters changes neither the binding nor the form. -/
theorem sameForm_parameterStep (form : Form) (mode : ScanMode) (s : Scan) :
    SameForm s (parameterStep form mode s).scan :=
  scan_parameterStep (fun _ hmove => hmove.sameForm) (fun _ hstops => hstops.sameForm)
    (fun _ _ hfails => hfails.sameForm) ⟨rfl, rfl⟩

theorem sameForm_readForm (form : Form) (mode : ScanMode) (s : Scan) :
    SameForm s (readForm form mode s) := by
  refine run_preserves (SameForm s) ?_ ?_ ⟨rfl, rfl⟩
  · intro t ht
    have hnext := sameForm_parameterStep form mode t
    exact ⟨hnext.binding.trans ht.binding, hnext.form.trans ht.form⟩
  · exact fun t e ht => ⟨ht.binding, ht.form⟩

/-- Scanning the parameters changes neither the binding nor the form. -/
theorem sameForm_parseForm (s : Scan) (mode : ScanMode) : SameForm s (s.parseForm mode) := by
  unfold parseForm
  split
  · rename_i form _
    split
    · exact ⟨rfl, rfl⟩
    · have hread := sameForm_readForm form mode s.rewind
      exact ⟨hread.binding, hread.form⟩
  · exact ⟨rfl, rfl⟩

/-- A state inside a parameter is none where a command may end. -/
theorem isAtEnd_of_isInside (h : s.state.isInside = true) : s.isAtEnd = false := by
  unfold isAtEnd
  split
  all_goals
    first
    | rfl
    | rename_i hstate
      rw [hstate] at h
      cases h

/-- While the form is read from the scan on, no truth value is cut short in front of more text. -/
def SpellsBools (form : Form) (s : Scan) : Prop :=
  ∀ t, Reaches (parameterStep form .autocomplete) s t → ¬ IsAbbreviated form t

/-- **The same end.**  If the scan for typing stops where a command may end, and no truth value is
cut short on the way, then the scan for executing comes to the same end. -/
theorem readForm_execute (hspelled : SpellsBools form s)
    (hend : (readForm form .autocomplete s).isAtEnd = true) :
    readForm form .execute s = readForm form .autocomplete s := by
  suffices h : (readForm form .autocomplete s).isAtEnd = true →
      readForm form .execute s = readForm form .autocomplete s from h hend
  refine run_lockstep (Reaches (parameterStep form .autocomplete) s)
    (fun a e => a.isAtEnd = true → e = a) ?_ ?_ ?_ .refl
  · intro u v hu hstep
    refine ⟨?_, .next hu hstep⟩
    rcases parameterStep_execute (hspelled u hu) with heq | ⟨t, hstop, -⟩
    · exact heq.trans hstep
    · rw [hstop] at hstep
      cases hstep
  · intro u v hu hstep hv
    rcases parameterStep_execute (hspelled u hu) with heq | ⟨t, hstop, hinside⟩
    · exact run_of_stop (heq.trans hstep)
    · obtain rfl := Step.stop.inj (hstop.symm.trans hstep)
      rw [isAtEnd_of_isInside hinside] at hv
      cases hv
  · intro u v e _ _ hv
    cases hv

end Scan

end SlashCommand
