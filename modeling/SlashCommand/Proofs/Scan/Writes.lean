import SlashCommand.Proofs.Scan.Fails

/-!
# What a step stores

Values are written in few places, each for a field of the form: where a list is opened, where one of
its elements ends, where a value ends, where a truth value is left out, and where the rest of the
line is taken.  `Writes` says so once, with what is known of the token there
(`writes_parameterStep`).  Whatever is to be shown of the values that a scan stores is shown of these
five writes.
-/

namespace SlashCommand

namespace Scan

/-- What a step makes of the values of a scan. -/
inductive Writes (form : Form) (mode : ScanMode) (s : Scan) : Values → Prop
  /-- Most steps store nothing. -/
  | kept : Writes form mode s s.values
  /-- A bracket opens the list of a field that takes lists. -/
  | opened {i : Nat} {field : Field} : form.fields[i]? = some field → field.multiselect = true →
      Writes form mode s (s.values.insert field.name (.list []))
  /-- An element ends. -/
  | appended {i : Nat} {field : Field} : form.fields[i]? = some field →
      s.state = .list i .elementEnd → Writes form mode s (appendTo field.name s.token s.values)
  /-- A value ends that is bare and not empty, or quoted. -/
  | stored {i : Nat} {stage : ValueStage} {field : Field} : form.fields[i]? = some field →
      s.state = .value i stage → stage = .endBare ∧ s.token ≠ "" ∨ (∃ q, stage = .endQuoted q) →
      (field.type = .bool → acceptsBool mode s.token = true) →
      Writes form mode s (s.values.insert field.name (.ofToken field.multiselect s.token))
  /-- A truth value is left out. -/
  | omitted {i : Nat} {field : Field} : form.fields[i]? = some field → field.type = .bool →
      Writes form mode s (s.values.insert field.name (.scalar "true"))
  /-- The rest of the line is taken. -/
  | rest {i : Nat} {field : Field} : form.fields[i]? = some field → s.state = .rest i →
      Writes form mode s
        (s.values.insert field.name (.ofToken field.multiselect (String.ofList s.ahead)))

variable {form : Form} {mode : ScanMode} {s t : Scan} {field : Field} {i : Nat}

theorem ValueEndMoves.writes {stage : ValueStage} {quoted : Bool}
    (hmove : ValueEndMoves mode field quoted s t) (hfield : form.fields[i]? = some field)
    (hstate : s.state = .value i stage)
    (hstage : quoted = false ∧ stage = .endBare ∨ quoted = true ∧ ∃ q, stage = .endQuoted q) :
    Writes form mode s t.values := by
  cases hmove with
  | rescan _ hbool => exact .omitted hfield hbool
  | close _ _ htoken haccept =>
    refine .stored hfield hstate (hstage.imp ?_ And.right) haccept
    exact fun ⟨hquoted, hbare⟩ => ⟨hbare, htoken hquoted⟩

theorem ValueMoves.writes {stage : ValueStage} (hmove : ValueMoves mode field i s stage t)
    (hfield : form.fields[i]? = some field) (hstate : s.state = .value i stage) :
    Writes form mode s t.values := by
  cases hmove with
  | bracket _ hmulti => exact .opened hfield hmulti
  | quoted hquoted =>
    rw [hquoted.values_eq]
    exact .kept
  | endBare hend => exact hend.writes hfield hstate (.inl ⟨rfl, rfl⟩)
  | @endQuoted q _ hend => exact hend.writes hfield hstate (.inr ⟨rfl, q, rfl⟩)
  | _ => exact .kept

theorem ListMoves.writes {stage : ListStage} (hmove : ListMoves field i s stage t)
    (hfield : form.fields[i]? = some field) (hstate : s.state = .list i stage) :
    Writes form mode s t.values := by
  cases hmove with
  | quoted hquoted =>
    rw [hquoted.values_eq]
    exact .kept
  | append => exact .appended hfield hstate
  | _ => exact .kept

theorem Moves.writes (hmove : Moves form mode s t) : Writes form mode s t.values := by
  cases hmove with
  | value hfield hstate hvalue => exact hvalue.writes hfield hstate
  | list hfield hstate hlist => exact hlist.writes hfield hstate
  | _ => exact .kept

theorem Stops.writes (hstops : Stops form mode s t) : Writes form mode s t.values := by
  cases hstops with
  | quotedValue _ _ hcut | quotedElement _ _ hcut =>
    rw [hcut.values_eq]
    exact .kept
  | close hfield hstate hstage haccept => exact .stored hfield hstate hstage haccept
  | rest hfield hstate => exact .rest hfield hstate
  | _ => exact .kept

/-- A step stores nothing, or makes one of the five writes. -/
theorem writes_parameterStep (form : Form) (mode : ScanMode) (s : Scan) :
    Writes form mode s (parameterStep form mode s).scan.values := by
  refine scan_parameterStep (P := fun t => Writes form mode s t.values) (fun _ hmove => hmove.writes)
    (fun _ hstops => hstops.writes) (fun t e hfails => ?_) .kept
  rw [hfails.values_eq]
  exact .kept

end Scan

end SlashCommand
