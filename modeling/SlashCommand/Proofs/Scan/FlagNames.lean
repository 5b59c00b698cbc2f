import SlashCommand.Proofs.Binding.Validation
import SlashCommand.Proofs.Scan.Conformance
import SlashCommand.Proofs.Scan.Reach
import SlashCommand.Proofs.Scan.Shapes
import SlashCommand.Proofs.Text.Lowercase

/-!
# Fields that can be given as flags

Every field is meant to have a flag, under its label or its name.  The name of a flag ends at a
blank or an equals sign, and a form may have labels with either of them in it.

* `mem_of_outcome`: a field whose flag has been read has a value if the command succeeds.
* `parseForm_flag_iff`: a field can be given as a flag exactly if neither a blank nor an equals sign
  is in its name.  Otherwise a part of the name is read only, and that is not the flag of the field.
* `parseForm_due_date`: a form without a defect whose field cannot be given as a flag.
-/

namespace SlashCommand

/-! ## The length of a text in lower case -/

/-- Lower-casing makes two characters of the dotted capital, and one of any other. -/
theorem Text.length_lowerAfter (before text : List Char) :
    (lowerAfter before text).length = text.length + text.count 'İ' := by
  induction text generalizing before with
  | nil => rfl
  | cons c text ih =>
    rw [lowerAfter, List.length_append, ih, List.length_cons]
    by_cases hdotted : c = 'İ'
    · subst hdotted
      rw [if_neg (by decide), if_pos rfl, List.count_cons_self]
      simp only [List.length_cons, List.length_nil]
      omega
    · rw [if_neg hdotted, List.count_cons_of_ne hdotted]
      split
      · rw [List.length_singleton]
        omega
      · rw [List.length_singleton]
        omega

/-- A text is not the same, up to case, as the beginning of it. -/
theorem eqIgnoreCase_append_ne (w : List Char) {rest : List Char} (h : rest ≠ []) :
    Text.eqIgnoreCase (String.ofList (w ++ rest)) (String.ofList w) = false := by
  refine beq_false_of_ne fun heq => ?_
  have hlist := congrArg (fun s => s.toList.length) heq
  simp only [Text.lowercase, String.toList_ofList, Text.length_lowerAfter, List.length_append,
    List.count_append] at hlist
  have hpos := List.length_pos_iff.mpr h
  omega

namespace Scan

variable {form : Form} {mode : ScanMode} {field : Field} {s t : Scan} {i k : Nat} {c : Char}
  {values : Values} {r v w : List Char} {name : String}

/-! ## Fields keep their values -/

/-- A field that has a value keeps one. -/
theorem mem_parameterStep (h : name ∈ s.values) :
    name ∈ (parameterStep form mode s).scan.values := by
  have hinsert (name' : String) (value : Value) : name ∈ s.values.insert name' value :=
    Std.ExtTreeMap.mem_insert.mpr (.inr h)
  have hwrites := writes_parameterStep form mode s
  generalize (parameterStep form mode s).scan.values = values at hwrites ⊢
  cases hwrites with
  | kept => exact h
  | opened | stored | omitted | rest => exact hinsert _ _
  | appended =>
    unfold appendTo
    split
    · exact hinsert _ _
    · exact h

/-- The field has a value, or its value is being read outside brackets. -/
def IsGiven (form : Form) (field : Field) (s : Scan) : Prop :=
  field.name ∈ s.values ∨ ∃ i stage, s.state = .value i stage ∧ form.fields[i]? = some field

/-- Where the reading of a value goes on, it is being read or has been stored. -/
theorem ValueMoves.isGiven {stage : ValueStage} (hmove : ValueMoves mode field i s stage t)
    (hfield : form.fields[i]? = some field) (hstate : s.state = .value i stage) :
    IsGiven form field t := by
  have hassign (value : Value) : field.name ∈ s.values.insert field.name value :=
    Std.ExtTreeMap.mem_insert_self
  have hreads {t : Scan} {stage' : ValueStage} (ht : t.state = .value i stage') :
      IsGiven form field t := .inr ⟨i, stage', ht, hfield⟩
  cases hmove with
  | separatorEnd | equals | begin | startEnd | quote | bare | complete => exact hreads rfl
  | gap | push => exact hreads hstate
  | bracket => exact .inl (hassign _)
  | quoted hquoted =>
    rcases hquoted.state_eq with hstay | hclosed
    · exact hreads (hstay.trans hstate)
    · exact hreads hclosed
  | endBare hend | endQuoted hend =>
    cases hend with
    | rescan | close => exact .inl (hassign _)

/-- When a command is executed, the reading of a value stops with it only. -/
theorem Stops.mem_values {stage : ValueStage} (hstops : Stops form .execute s t)
    (hfield : form.fields[i]? = some field) (hstate : s.state = .value i stage) :
    field.name ∈ t.values := by
  cases hstops with
  | close hget hclose =>
    obtain ⟨rfl, -⟩ := ScanState.value.inj (hstate.symm.trans hclose)
    obtain rfl := Option.some.inj (hfield.symm.trans hget)
    exact Std.ExtTreeMap.mem_insert_self
  | startParameter hother | parameterSeparator hother | listEnd hother | rest _ hother =>
    rw [hstate] at hother
    cases hother

/-- A field whose value is being read has one if the command succeeds. -/
theorem mem_of_outcome (hfield : form.fields[i]? = some field) {stage : ValueStage}
    (hstate : s.state = .value i stage) (hout : outcome form s = some values) :
    field.name ∈ values := by
  have hkept {t : Scan} (h : field.name ∈ t.values) :
      field.name ∈ (parameterStep form .execute t).scan.values := mem_parameterStep h
  have hend : (readForm form .execute s).isFailed = true ∨
      field.name ∈ (readForm form .execute s).values := by
    have hgiven : IsGiven form field s := .inr ⟨i, stage, hstate, hfield⟩
    refine run_invariant (IsGiven form field)
      (fun t => t.isFailed = true ∨ field.name ∈ t.values) ?_ ?_ ?_ hgiven
    · rintro t u (hmem | ⟨j, stage', ht, hget⟩) hnext
      · have hmem' := hkept hmem
        rw [hnext] at hmem'
        exact .inl hmem'
      · exact (valueMoves_of_parameterStep hget ht hnext).isGiven hget ht
    · rintro t u (hmem | ⟨j, stage', ht, hget⟩) hstop
      · have hmem' := hkept hmem
        rw [hstop] at hmem'
        exact .inr hmem'
      · rw [parameterStep_value hget ht] at hstop
        exact .inr ((stops_of_valueStep hget ht hstop).mem_values hget ht)
    · exact fun _ _ _ _ _ => .inl rfl
  rw [outcome] at hout
  split at hout
  · cases hout
  · rename_i hsucceeds
    obtain rfl := Option.some.inj hout
    exact hend.resolve_left hsucceeds

/-! ## Names of flags -/

/-- A flag whose name can be read is given its value. -/
theorem outcome_namedFlag (hform : form.defect? = none) (hf : field ∈ form.fields)
    (hbool : field.type ≠ .bool) (hname : ∀ c ∈ field.flagName.toList, IsNameChar c)
    (hv : TokenText field v v) (hhead : ∀ c ∈ v.head?, c ≠ '=' ∧ Text.isBlank c = false)
    (hs : Stands .startParameter 0 ∅ ('-' :: '-' :: (field.flagName.toList ++ ' ' :: v)) s) :
    outcome form s =
      some ((∅ : Values).insert field.name (.ofToken field.multiselect (String.ofList v))) := by
  have hflag : form.flag? field.flagName.toList = some field := Form.flag?_of_mem hform hf
  have hseparator : IsSeparator [' '] := ⟨by decide, by decide⟩
  have hstart : ∀ c ∈ v.head?, IsNameChar c := by
    rintro c hc (hequals | hblank)
    · exact (hhead c hc).1 hequals
    · rw [(hhead c hc).2] at hblank
      cases hblank
  have hahead : '-' :: '-' :: (field.flagName.toList ++ ' ' :: v) =
      ['-', '-'] ++ (field.flagName.toList ++ ([' '] ++ v)) ++ [] := by simp
  rw [hahead] at hs
  obtain ⟨t, ht, hout⟩ := outcome_flag (.inl rfl) hname hflag (by simp) hseparator hstart
    (.token hv fun h => absurd h hbool) startsBlank_nil hs
  rw [hout, outcome_parameterSeparator_nil ht]

/-- A flag with a blank or an equals sign in its name is not read as the flag of its field: the
command fails, or another field has a value. -/
theorem outcome_brokenFlag (hform : form.defect? = none) (hf : field ∈ form.fields)
    (hname : ¬ ∀ c ∈ field.flagName.toList, IsNameChar c)
    (hs : Stands .startParameter 0 ∅ ('-' :: '-' :: (field.flagName.toList ++ r)) s)
    (hout : outcome form s = some values) :
    ∃ other ∈ form.fields, other.name ≠ field.name ∧ other.name ∈ values := by
  obtain ⟨w, rest, hsplit, hw, hrest⟩ := exists_run IsNameChar field.flagName.toList
  have hne : rest ≠ [] := by
    rintro rfl
    rw [List.append_nil] at hsplit
    exact hname (hsplit ▸ hw)
  rw [hsplit, List.append_assoc] at hs
  have hlead : LeadingDashes ['-', '-'] (w ++ (rest ++ r)) := .inl rfl
  obtain ⟨t, ht, htoken, hread⟩ := outcome_dashes hlead hs
  have hend : ∀ c ∈ (rest ++ r).head?, ¬ IsNameChar c := by
    obtain ⟨c, rest', rfl⟩ := List.exists_cons_of_ne_nil hne
    exact hrest
  obtain ⟨hnone, hsome⟩ := outcome_flagName hw hend ht htoken
  cases hflag : form.flag? w with
  | none =>
    rw [hread, hnone hflag] at hout
    cases hout
  | some other =>
    obtain ⟨i, u, hget, hu, hvalue⟩ := hsome other hflag
    rw [hread, hvalue] at hout
    have hother : other ∈ form.fields := List.mem_of_getElem? hget
    refine ⟨other, hother, fun hsame => ?_, mem_of_outcome hget hu.state_eq hout⟩
    -- its flag is the whole name, and not the beginning of it
    obtain rfl := Form.eq_of_name_eq hform hother hf hsame
    rw [Form.flag?] at hflag
    have heq := List.find?_some hflag
    have hlonger := eqIgnoreCase_append_ne w hne
    rw [← hsplit, String.ofList_toList] at hlonger
    rw [hlonger] at heq
    cases heq

variable {command value : String} {bindings : List Binding}

/-- **Flags of fields.**  A field that is no truth value can be given as a flag, with a word behind
it that begins neither a quotation nor a list, exactly if neither a blank nor an equals sign is in
the name of the flag. -/
theorem parseForm_flag_iff (hform : form.defect? = none) (hf : field ∈ form.fields)
    (hbool : field.type ≠ .bool) (hne : value ≠ "") (hword : IsWord value.toList)
    (hhead : ∀ c ∈ value.toList.head?, c ≠ '=' ∧ c ≠ '[' ∧ c ≠ '"' ∧ c ≠ '\x60')
    (hmatch : ((ofText command).matchBinding bindings mode).isFailed = false) :
    let m := (ofText command).matchBinding bindings mode
    let e := (m.withForm form).parseForm .execute
    command.toList.drop m.tokenStart = ("--" ++ field.flagName ++ " " ++ value).toList →
      (e.isFailed = false ∧
          e.values = (∅ : Values).insert field.name (.ofToken field.multiselect value) ↔
        ∀ c ∈ field.flagName.toList, IsNameChar c) := by
  intro m e htext
  have hs : Stands .startParameter 0 ∅ (command.toList.drop m.tokenStart)
      (m.withForm form).rewind :=
    stands_matchBinding form command bindings mode
  have hparameters : ("--" ++ field.flagName ++ " " ++ value).toList =
      '-' :: '-' :: (field.flagName.toList ++ ' ' :: value.toList) := by simp
  rw [htext, hparameters] at hs
  have hout : outcome form (m.withForm form).rewind = if e.isFailed then none else some e.values :=
    outcome_matchBinding form hmatch
  constructor
  · rintro ⟨hsucceeds, hvalues⟩
    rw [hsucceeds] at hout
    refine Classical.byContradiction fun hname => ?_
    obtain ⟨other, -, hother, hmem⟩ := outcome_brokenFlag hform hf hname hs hout
    rw [hvalues, Std.ExtTreeMap.mem_insert] at hmem
    rcases hmem with hsame | hempty
    · exact hother (Std.compare_eq_iff_eq.mp hsame).symm
    · exact absurd hempty Std.ExtTreeMap.not_mem_empty
  · intro hname
    have hv : TokenText field value.toList value.toList := by
      cases hlist : value.toList with
      | nil => exact absurd (String.toList_eq_nil_iff.mp hlist) hne
      | cons c w =>
        rw [hlist] at hword hhead
        obtain ⟨-, hbracket, hdouble, htick⟩ := hhead c rfl
        refine .bare ⟨Quote.forall_ne_char.mpr ⟨hdouble, htick⟩, fun h => hbracket h.1,
          hword c List.mem_cons_self⟩ fun d hd => hword d (List.mem_cons_of_mem c hd)
    have hstart : ∀ c ∈ value.toList.head?, c ≠ '=' ∧ Text.isBlank c = false := fun c hc =>
      ⟨(hhead c hc).1, hword c (List.mem_of_mem_head? hc)⟩
    have hread := outcome_namedFlag hform hf hbool hname hv hstart hs
    rw [hout, String.ofList_toList] at hread
    cases hfailed : e.isFailed with
    | true =>
      rw [hfailed] at hread
      cases hread
    | false =>
      rw [hfailed] at hread
      exact ⟨rfl, Option.some.inj hread⟩

/-- The day that a task is due. -/
def dueField (label : String) : Field where
  name := "due"
  label := some label

/-- The scan of a task in front of its parameters. -/
def taskScan (command token : String) : Scan where
  state := .endCommand
  text := command.toList
  cursor := 6 + token.length
  token := token
  tokenStart := 6
  location := "/task"
  binding := some { label := "task" }

theorem matchBinding_task {command token : String}
    (h : (runWithin (descentStep .execute) 40
      { ofText command with candidates := [{ label := "task" }] }).map Prod.snd =
        some (taskScan command token)) :
    (ofText command).matchBinding [{ label := "task" }] .execute = taskScan command token :=
  matchBinding_of_runWithin 40 _ rfl (List.cons_ne_nil _ _) h

theorem matchBinding_due_date :
    (ofText "/task --due-date today").matchBinding [{ label := "task" }] .execute =
      taskScan "/task --due-date today" "--due-date" :=
  matchBinding_task rfl

theorem matchBinding_due :
    (ofText "/task --due date x").matchBinding [{ label := "task" }] .execute =
      taskScan "/task --due date x" "--due" :=
  matchBinding_task rfl

/-- The scan that has read a part of the name of a flag and takes it for all of it. -/
def dueFailed : Scan :=
  { (taskScan "/task --due date x" "due").withForm { fields := [dueField "due date"] } with
    state := .failed ⟨.unexpectedFlag "due", 11⟩, cursor := 11, tokenStart := 8 }

theorem readForm_due :
    (runWithin (parameterStep { fields := [dueField "due date"] } .execute) 40
      ((taskScan "/task --due date x" "--due").withForm
        { fields := [dueField "due date"] }).rewind).map Prod.snd = some dueFailed := by
  rfl

/-- A field with a hyphen in its label can be given as a flag. -/
theorem parseForm_flag_iff_due :
    let field := dueField "due-date"
    let command := "/task --due-date today"
    let m := (ofText command).matchBinding [{ label := "task" }] .execute
    let e := (m.withForm { fields := [field] }).parseForm .execute
    e.isFailed = false ∧ e.values = (∅ : Values).insert "due" (.scalar "today") := by
  intro field command m e
  have hm : m = taskScan command "--due-date" := matchBinding_due_date
  have hmatch : m.isFailed = false := by rw [hm]; rfl
  have htext : command.toList.drop m.tokenStart =
      ("--" ++ field.flagName ++ " " ++ "today").toList := by
    rw [hm]
    decide
  refine (parseForm_flag_iff (by decide) List.mem_cons_self (by decide) (by decide) (by decide)
    (by decide) hmatch htext).mpr ?_
  decide

/-- A field with a blank in its label cannot be given as a flag, although the form has no defect.
What is read of its name is the flag of no field. -/
theorem parseForm_due_date :
    let field := dueField "due date"
    let form : Form := { fields := [field] }
    let command := "/task --due date x"
    let m := (ofText command).matchBinding [{ label := "task" }] .execute
    let e := (m.withForm form).parseForm .execute
    form.defect? = none ∧ field.type ≠ .bool ∧ m.isFailed = false ∧
      command.toList.drop m.tokenStart = ("--" ++ field.flagName ++ " " ++ "x").toList ∧
      e.error? = some ⟨.unexpectedFlag "due", 11⟩ := by
  intro field form command m e
  have hm : m = taskScan command "--due" := matchBinding_due
  have hmatch : m.isFailed = false := by rw [hm]; rfl
  have he : e = dueFailed := by
    show (m.withForm form).parseForm .execute = _
    rw [hm]
    exact parseForm_of_runWithin 40 _ rfl readForm_due
  refine ⟨by decide, by decide, hmatch, ?_, ?_⟩
  · rw [hm]
    decide
  · rw [he]
    rfl

end Scan

end SlashCommand
