import SlashCommand.Proofs.Scan.Bounds
import SlashCommand.Proofs.Scan.Reach

/-!
# Bounds of a scan that is used in any order

A scan is matched to a binding, checked for a leaf, given a form and read against it.  Nothing holds
its user to that order: a scan can be matched again behind the parameters, read twice, or given
another form while its state still names a field of the old one, each time in either mode and
against a tree and a form that nobody has validated.

What is kept in all of these cases is less than what is kept while parameters are read: only that
the token begins at or before the cursor, and that the cursor stays in the text (`InBounds`).  The
field that a state names is not among it, since another form may have fewer fields.  But reading
begins in front of a parameter, in a state that names none, so from there on the bounds of `Reading`
hold.

`inBounds_afterActions` has both together: the scans between two actions, and those on the way
through the loops of an action.
-/

namespace SlashCommand

namespace Scan

/-- What can be done with a scan. -/
inductive Action where
  | matchBinding (bindings : List Binding) (mode : ScanMode)
  | requireLeaf
  | withForm (form : Form)
  | parseForm (mode : ScanMode)

/-- The scan after an action. -/
def act (s : Scan) : Action → Scan
  | .matchBinding bindings mode => s.matchBinding bindings mode
  | .requireLeaf => s.requireLeaf
  | .withForm form => s.withForm form
  | .parseForm mode => s.parseForm mode

/-- The scan of a command after several actions. -/
def afterActions (command : String) (actions : List Action) : Scan :=
  actions.foldl act (ofText command)

/-- Matching the scan takes a step of the descent from `u`. -/
structure Descends (s : Scan) (bindings : List Binding) (mode : ScanMode) (u : Scan) : Prop where
  notFailed : s.isFailed = false
  nonempty : bindings ≠ []
  reaches : Reaches (descentStep mode) { s with candidates := bindings } u

/-- Reading the scan against the form takes a step from `u`. -/
structure Reads (s : Scan) (form : Form) (mode : ScanMode) (u : Scan) : Prop where
  hasForm : s.form = some form
  notFailed : s.isFailed = false
  reaches : Reaches (parameterStep form mode) s.rewind u

variable {text : List Char} {form : Form} {mode : ScanMode} {s u : Scan}

namespace InBounds

/-- The text before a position is as long as the position says, or is all of the text. -/
theorem length_textBefore (h : InBounds text s) (position : Nat) :
    (s.textBefore position).length = min position text.length := by
  rw [textBefore, h.text_eq, String.length_ofList, List.length_take]

/-! ## The descent -/

theorem of_descends {bindings : List Binding} (h : InBounds text s)
    (hu : s.Descends bindings mode u) : InBounds text u := by
  refine hu.reaches.preserves (InBounds text) (fun t v ht hstep => ?_) (h.congr rfl rfl rfl)
  exact (descentCase_of_eq hstep).inBounds ht

/-! ## Parameters -/

theorem of_reading (h : Reading form text s) : InBounds text s :=
  ⟨h.text_eq, h.tokenStart_le, h.cursor_le⟩

theorem reading_of_reads (h : InBounds text s) (hu : s.Reads form mode u) : Reading form text u :=
  hu.reaches.preserves (Reading form text) (fun _ _ ht hstep => ht.next hstep) h.rewind

theorem readForm (h : Reading form text s) : InBounds text (Scan.readForm form mode s) := by
  refine run_invariant (Reading form text) (InBounds text) (fun _ _ ht hstep => ht.next hstep)
    (fun _ _ ht hstop => .of_reading (ht.stop hstop)) (fun t v e ht hfail => ?_) h
  have hv : Reading form text (parameterStep form mode t).scan := reading_parameterStep ht
  rw [hfail] at hv
  exact (of_reading hv).fail e

/-! ## Actions -/

theorem requireLeaf (h : InBounds text s) : InBounds text s.requireLeaf := by
  unfold Scan.requireLeaf
  split
  · split
    · exact h.fail _
    · exact h
  · exact h

theorem parseForm (h : InBounds text s) (mode : ScanMode) : InBounds text (s.parseForm mode) := by
  unfold Scan.parseForm
  split
  · split
    · exact h
    · exact readForm h.rewind
  · exact h

theorem act (h : InBounds text s) (action : Action) : InBounds text (s.act action) := by
  cases action with
  | matchBinding bindings mode => exact h.matchBinding bindings mode
  | requireLeaf => exact h.requireLeaf
  | withForm form => exact h.congr rfl rfl rfl
  | parseForm mode => exact h.parseForm mode

theorem foldl_act (h : InBounds text s) (actions : List Action) :
    InBounds text (actions.foldl Scan.act s) := by
  induction actions generalizing s with
  | nil => exact h
  | cons action actions ih => exact ih (h.act action)

end InBounds

/-- What the loop over parameters looks up in the form and in the text is there. -/
structure InRange (form : Form) (u : Scan) : Prop where
  field : ∀ i, u.state.field? = some i → ∃ field, form.fields[i]? = some field
  rest : ∀ i, u.state = .rest i → u.cursor ≤ u.text.length

theorem Reading.inRange (h : Reading form text s) : InRange form s where
  field i hi := by
    obtain ⟨field, -, hfield⟩ := h.field hi
    exact ⟨field, hfield⟩
  rest _ _ := h.text_eq ▸ h.cursor_le

/-- **Nothing is out of range.**  After any actions with the scan of a command, in any order, and in
front of and behind every step that the next action takes, the token begins at or before the cursor
and the cursor is in the text.  While parameters are read, the form has the field that the state
names, and the rest of the line begins in the text.  The text before a position is as long as the
position says, or is the whole command. -/
theorem inBounds_afterActions (command : String) (actions : List Action) :
    let text := command.toList
    let s := afterActions command actions
    InBounds text s ∧
    (∀ position, (s.textBefore position).length = min position text.length) ∧
    (∀ bindings mode u, s.Descends bindings mode u →
      InBounds text u ∧ InBounds text (descentStep mode u).scan) ∧
    ∀ form mode u, s.Reads form mode u →
      InBounds text u ∧ InBounds text (parameterStep form mode u).scan ∧
        InRange form u ∧ InRange form (parameterStep form mode u).scan := by
  intro text s
  have hs : InBounds text s := (InBounds.ofText command).foldl_act actions
  refine ⟨hs, hs.length_textBefore, fun bindings mode u hu => ?_, fun form mode u hu => ?_⟩
  · have hbounds := hs.of_descends hu
    exact ⟨hbounds, (descentCase_of_eq rfl).inBounds hbounds⟩
  · have hreading := hs.reading_of_reads hu
    have hstep : Reading form text (parameterStep form mode u).scan :=
      reading_parameterStep hreading
    exact ⟨.of_reading hreading, .of_reading hstep, hreading.inRange, hstep.inRange⟩

/-- A form whose second field takes the rest of the line. -/
def draftForm : Form where
  fields := [{ name := "title" }, { name := "body", position := restPosition }]

/-- A form whose only field takes the rest of the line. -/
def memoForm : Form where
  fields := [{ name := "text", position := restPosition }]

/-- A command is read against one form and then given a shorter one. -/
def memoActions : List Action :=
  [.matchBinding [.ofLabel "memo"] .autocomplete, .withForm draftForm, .parseForm .autocomplete,
    .withForm memoForm]

/-- The command after these actions. -/
def memoRead : Scan where
  state := .rest 1
  text := "/memo buy milk".toList
  cursor := 14
  token := "buy milk"
  tokenStart := 6
  location := "/memo"
  binding := some (.ofLabel "memo")
  form := some memoForm
  positionals := 1
  values := (∅ : Values).insert "body" (.scalar "buy milk")

theorem afterActions_memo : afterActions "/memo buy milk" memoActions = memoRead := by
  have hmatch : (ofText "/memo buy milk").matchBinding [.ofLabel "memo"] .autocomplete = _ :=
    matchBinding_of_runWithin 60 _ rfl (List.cons_ne_nil _ _) rfl
  show (((((ofText "/memo buy milk").matchBinding [.ofLabel "memo"] .autocomplete).withForm
    draftForm).parseForm .autocomplete).withForm memoForm) = memoRead
  rw [hmatch, parseForm_of_runWithin 60 _ rfl rfl]
  rfl

/-- The state names a field that the new form does not have, and reading against it comes to the
rest of the line, which begins in the text and belongs to a field of the new form. -/
theorem inBounds_afterActions_memo :
    let s := afterActions "/memo buy milk" memoActions
    s.state.field? = some 1 ∧ memoForm.fields[1]? = none ∧
    ∃ u, s.Reads memoForm .execute u ∧ u.state = .rest 0 ∧ InRange memoForm u := by
  have hreads : (afterActions "/memo buy milk" memoActions).Reads memoForm .execute
      { memoRead with state := .rest 0, cursor := 6, token := "", positionals := 2 } := by
    rw [afterActions_memo]
    exact ⟨rfl, rfl, .next .refl rfl⟩
  refine ⟨by rw [afterActions_memo]; rfl, rfl, _, hreads, rfl, ?_⟩
  exact ((inBounds_afterActions "/memo buy milk" memoActions).2.2.2 _ _ _ hreads).2.2.1

end Scan

end SlashCommand
