import SlashCommand.Proofs.Scan.Conformance
import SlashCommand.Proofs.Scan.Continuations

/-!
# Flags without a value

A boolean flag may stand without its value, and it is true then: in front of any other parameter
`--daily ` is read as `--daily true ` is (`parseForm_bool_omitted`).

The value is not seen to be missing.  The next parameter is read as the value, up to its end, and
when it is no truth value the scan goes back to where it begins.  There it has kept nothing of what
it has read but the truth of the field, so it is the scan that comes to the same parameter behind a
value that was given, except for where it stands in its text (`behindBool`).  The two runs go on in
step, the one five characters behind the other.
-/

namespace SlashCommand

namespace Scan

variable {form : Form} {mode : ScanMode} {field : Field} {s : Scan} {pre r text : List Char}
  {i n : Nat}

/-- The scan as it comes to a position, in a state where nothing has been read of the next token. -/
def comingTo (s : Scan) (state : ScanState) (position : Nat) : Scan :=
  { s with state, cursor := position, tokenStart := position, token := "" }

/-- The scan in front of the parameter behind a boolean flag that is true. -/
def behindBool (s : Scan) (field : Field) (position : Nat) : Scan :=
  (s.assign field.name (.scalar "true")).comingTo .startParameter position

/-! ## Up to the value -/

/-- In front of its value a flag leaves nothing behind. -/
theorem readForm_flag (hform : form.defect? = none) (hf : field ∈ form.fields)
    (hname : ∀ c ∈ field.flagName.toList, IsNameChar c) (hstate : s.state = .startParameter)
    (hahead : s.ahead = '-' :: '-' :: (field.flagName.toList ++ ' ' :: r))
    (hr : ∀ c ∈ r.head?, IsNameChar c) :
    ∃ i, form.fields[i]? = some field ∧
      readForm form .execute s = readForm form .execute
        (s.comingTo (.value i .start) (s.cursor + field.flagName.length + 3)) := by
  obtain ⟨i, hi, hfield⟩ := exists_findIdx? (Form.find?_flagName_of_mem hform hf)
  refine ⟨i, hfield, ?_⟩
  let dash := s.advance.goto .flagDash
  let begun := dash.advance.beginToken.goto .flagName
  let named := begun.pushAll field.flagName.toList
  let found := named.clearToken.goto (.value i (.separator false))
  have hdash : dash.ahead = '-' :: (field.flagName.toList ++ ' ' :: r) := ahead_advance hahead
  have hbegun : begun.ahead = field.flagName.toList ++ ' ' :: r := ahead_advance hdash
  have hnamed : named.ahead = ' ' :: r := ahead_pushAll hbegun
  have hfound : found.ahead = ' ' :: r := hnamed
  have hbehind : found.markToken.advance.ahead = r := ahead_advance (s := found.markToken) hnamed
  have htoken : named.token = field.flagName := by
    show "" ++ String.ofList field.flagName.toList = _
    rw [String.empty_append, String.ofList_toList]
  have hlookup : parameterStep form .execute named = .next found := by
    rw [step_flagName_end rfl (.inr ⟨' ', r, hnamed, by decide⟩), flagEndStep, htoken, hi]
  have hread : readForm form .execute begun = readForm form .execute named :=
    run_pushAll (fun t c r' hstate hahead hc => step_flagName_cons hstate hahead hc) rfl hbegun
      hname
  have hvalue : parameterStep form .execute found.markToken.advance =
      .next (found.markToken.advance.markToken.goto (.value i .start)) := by
    cases r with
    | nil => exact step_separator_nil hfield rfl hbehind
    | cons c r =>
      obtain ⟨hequals, hblank⟩ := not_or.mp (hr c rfl)
      exact step_separator_cons hfield rfl hbehind hequals (Bool.eq_false_iff.mpr hblank)
  rw [readForm_of_next (step_startParameter_dash hstate hahead),
    readForm_of_next (step_flagDash_dash rfl hdash), hread, readForm_of_next hlookup,
    readForm_of_next (step_separator_blank hfield rfl hfound rfl), readForm_of_next hvalue]
  have hcursor : s.cursor + 1 + 1 + field.flagName.toList.length + 1 =
      s.cursor + field.flagName.length + 3 := by
    rw [String.length_toList]
    omega
  rw [comingTo, ← hcursor]
  rfl

/-! ## From the value on -/

/-- A boolean field whose value is missing is true, and the next parameter is yet to be read. -/
theorem readForm_omitted (hfield : form.fields[i]? = some field) (hbool : field.type = .bool)
    (htext : s.text.drop n = r) (hr : ∀ c ∈ r.head?, BeginsBare field c)
    (hword : acceptsBool .execute (String.ofList (firstWord r)) = false) :
    readForm form .execute (s.comingTo (.value i .start) n) =
      readForm form .execute (s.behindBool field n) := by
  let begun := (s.comingTo (.value i .start) n).beginToken
  let read := (begun.pushAll (firstWord r)).goto (.value i .endBare)
  have hsplit : r = firstWord r ++ behindWord r := (firstWord_append_behindWord r).symm
  have hblank := startsBlank_behindWord r
  have hahead : begun.ahead = firstWord r ++ behindWord r := htext.trans hsplit
  have hread : readForm form .execute (s.comingTo (.value i .start) n) =
      readForm form .execute read :=
    readForm_start_bare hfield (isWord_firstWord r) hblank (hsplit ▸ hr) rfl hahead
  have hback : parameterStep form .execute read = .next (read.rescan field) := by
    rw [parameterStep_value hfield rfl]
    refine valueEndStep_reject ?_ hbool ?_
    · exact (ahead_pushAll hahead).symm ▸ hblank
    · show acceptsBool .execute ("" ++ String.ofList (firstWord r)) = false
      rwa [String.empty_append]
  rw [hread, readForm_of_next hback]
  rfl

/-- Behind a parameter the scan comes to the next one. -/
theorem readForm_parameterSeparator (hstate : s.state = .parameterSeparator) (htoken : s.token = "")
    (h : s.ahead = ' ' :: r) (hr : StartsPlain r) :
    readForm form mode s = readForm form mode (s.comingTo .startParameter (s.cursor + 1)) := by
  have hbehind : s.markToken.advance.ahead = r := ahead_advance (s := s.markToken) h
  have hstate' : s.markToken.advance.state = .parameterSeparator := hstate
  have hcoming : s.comingTo .startParameter (s.cursor + 1) =
      s.markToken.advance.markToken.goto .startParameter := by
    rw [comingTo, ← htoken]
    rfl
  rw [readForm_of_next (step_parameterSeparator_blank hstate h rfl), hcoming]
  cases r with
  | nil =>
    -- the run stops here, in the scan that it would go on from
    have hstop : parameterStep form mode (s.comingTo .startParameter (s.cursor + 1)) =
        .stop (s.comingTo .startParameter (s.cursor + 1)).beginToken :=
      step_startParameter_nil rfl hbehind
    rw [readForm_of_stop (step_parameterSeparator_nil hstate' hbehind), ← hcoming,
      readForm_of_stop hstop]
    rfl
  | cons c r => exact readForm_of_next (step_parameterSeparator_cons hstate' hbehind (hr c rfl))

/-- A boolean field whose value is given is true, and the next parameter is yet to be read. -/
theorem readForm_true (hform : form.defect? = none) (hfield : form.fields[i]? = some field)
    (hbool : field.type = .bool) (htext : s.text.drop n = "true ".toList ++ r)
    (hr : StartsPlain r) :
    readForm form .execute (s.comingTo (.value i .start) n) =
      readForm form .execute (s.behindBool field (n + 5)) := by
  let begun := (s.comingTo (.value i .start) n).beginToken
  let read := (begun.pushAll "true".toList).goto (.value i .endBare)
  have hahead : begun.ahead = "true".toList ++ ' ' :: r := htext
  have hbegin : ∀ c ∈ ("true".toList ++ ' ' :: r).head?, BeginsBare field c := by
    intro c hc
    obtain rfl := Option.some.inj hc
    exact ⟨by decide, fun hbracket => absurd hbracket.1 (by decide), by decide⟩
  have hread : readForm form .execute (s.comingTo (.value i .start) n) =
      readForm form .execute read :=
    readForm_start_bare hfield (by decide) (startsBlank_cons rfl) hbegin rfl hahead
  have hbehind : read.ahead = ' ' :: r := ahead_pushAll hahead
  have hclose : parameterStep form .execute read =
      .next ((read.closeValue field).goto .parameterSeparator) := by
    have hmore : ¬ read.ahead = [] := by
      rw [hbehind]
      exact List.cons_ne_nil _ _
    have hne : read.token ≠ "" := by
      show "" ++ "true" ≠ ""
      decide
    rw [parameterStep_value hfield rfl]
    refine (valueEndStep_execute_of_end ?_ (fun _ => rfl) (.inr hne)).trans (if_neg hmore)
    rw [hbehind]
    exact startsBlank_cons rfl
  have hnext : readForm form .execute ((read.closeValue field).goto .parameterSeparator) =
      readForm form .execute
        (((read.closeValue field).goto .parameterSeparator).comingTo .startParameter (n + 5)) :=
    readForm_parameterSeparator rfl rfl hbehind hr
  rw [hread, readForm_of_next hclose, hnext]
  have hsingle := Form.multiselect_of_bool hform (List.mem_of_getElem? hfield) hbool
  rw [closeValue, hsingle]
  rfl

/-! ## The two runs -/

/-- A run from behind what a text has in common with another one is the run of the other text from
there, further on. -/
theorem readForm_behind {before before' : List Char} {k : Nat}
    (hlength : before'.length = k + before.length) (hs : Reading form (before ++ r) s)
    (hpoint : before.length ≤ s.returnPoint) :
    readForm form mode (s.transplanted (before' ++ r) k) =
      (readForm form mode s).transplanted (before' ++ r) k := by
  refine readForm_transplanted
    (fun u => Reading form (before ++ r) u ∧ before.length ≤ u.returnPoint) ?_ ?_ ⟨hs, hpoint⟩
  · rintro u v ⟨hu, hle⟩ hstep
    exact ⟨hu.next hstep, Nat.le_trans hle ((Reaches.next .refl hstep).returnPoint_le hu)⟩
  · rintro u ⟨hu, hle⟩
    exact .of_isSuffix hu.text_eq rfl hlength (Nat.le_trans hle (returnPoint_le hu.tokenStart_le))

/-- The text up to a flag, with the flag and the blank behind it. -/
def throughFlag (pre : List Char) (field : Field) : List Char :=
  pre ++ '-' :: '-' :: field.flagName.toList ++ [' ']

/-- A scan in front of a flag comes to the value of that flag. -/
theorem readForm_throughFlag (hform : form.defect? = none) (hf : field ∈ form.fields)
    (hname : ∀ c ∈ field.flagName.toList, IsNameChar c) (hstate : s.state = .startParameter)
    (hcursor : s.cursor = pre.length) (hr : ∀ c ∈ r.head?, IsNameChar c) :
    ∃ i, form.fields[i]? = some field ∧
      readForm form .execute (s.onText (throughFlag pre field ++ r)) =
        readForm form .execute ((s.onText (throughFlag pre field ++ r)).comingTo
          (.value i .start) (throughFlag pre field).length) := by
  have hahead : (s.onText (throughFlag pre field ++ r)).ahead =
      '-' :: '-' :: (field.flagName.toList ++ ' ' :: r) := by
    have hsplit : throughFlag pre field ++ r =
        pre ++ '-' :: '-' :: (field.flagName.toList ++ ' ' :: r) := by
      simp [throughFlag]
    show (throughFlag pre field ++ r).drop s.cursor = _
    rw [hcursor, hsplit, List.drop_left]
  have hlength : (throughFlag pre field).length = s.cursor + field.flagName.length + 3 := by
    simp only [throughFlag, List.length_append, List.length_cons, List.length_nil,
      String.length_toList, hcursor]
    omega
  rw [hlength]
  exact readForm_flag hform hf hname hstate hahead hr

/-- The value of a boolean flag may be left out: the runs end in the same way, five characters
apart. -/
theorem readForm_bool_omitted (hform : form.defect? = none) (hf : field ∈ form.fields)
    (hbool : field.type = .bool) (hname : ∀ c ∈ field.flagName.toList, IsNameChar c)
    (hstate : s.state = .startParameter) (hcursor : s.cursor = pre.length)
    (hr : ∀ c ∈ r.head?, IsNameChar c ∧ ∀ q : Quote, c ≠ q.char)
    (hword : acceptsBool .execute (String.ofList (firstWord r)) = false) :
    readForm form .execute (s.onText (throughFlag pre field ++ ("true ".toList ++ r))) =
      (readForm form .execute (s.onText (throughFlag pre field ++ r))).transplanted
        (throughFlag pre field ++ ("true ".toList ++ r)) 5 := by
  have hsingle := Form.multiselect_of_bool hform hf hbool
  have hbare : ∀ c ∈ r.head?, BeginsBare field c := by
    intro c hc
    obtain ⟨hchar, hquote⟩ := hr c hc
    refine ⟨hquote, fun hlist => ?_, Bool.eq_false_iff.mpr (not_or.mp hchar).2⟩
    rw [hsingle] at hlist
    cases hlist.2
  have htrue : ∀ c ∈ ("true ".toList ++ r).head?, IsNameChar c := by
    intro c hc
    obtain rfl := Option.some.inj hc
    decide
  obtain ⟨i, hfield, hread⟩ :=
    readForm_throughFlag hform hf hname hstate hcursor fun c hc => (hr c hc).1
  obtain ⟨j, hfield', hread'⟩ := readForm_throughFlag hform hf hname hstate hcursor htrue
  rw [hread, readForm_omitted hfield hbool List.drop_left hbare hword, hread',
    readForm_true hform hfield' hbool List.drop_left fun c hc => (hbare c hc).2.2]
  let given := throughFlag pre field ++ "true ".toList
  have hlength : given.length = 5 + (throughFlag pre field).length := by
    rw [List.length_append, Nat.add_comm]
    rfl
  have hmoved : (s.onText (given ++ r)).behindBool field ((throughFlag pre field).length + 5) =
      ((s.onText (throughFlag pre field ++ r)).behindBool field
        (throughFlag pre field).length).transplanted (given ++ r) 5 := by
    rw [Nat.add_comm]
    rfl
  have hend : (throughFlag pre field).length ≤ (throughFlag pre field ++ r).length := by
    rw [List.length_append]
    exact Nat.le_add_right _ _
  rw [← List.append_assoc, hmoved]
  exact readForm_behind hlength ⟨rfl, rfl, nofun, Nat.le_refl _, hend⟩ (Nat.le_refl _)

/-! ## Whole commands -/

theorem toList_throughFlag (pre : String) (field : Field) (v : String) :
    (pre ++ "--" ++ field.flagName ++ " " ++ v).toList =
      throughFlag pre.toList field ++ v.toList := by
  simp [throughFlag]

/-- **A boolean flag without its value is true.**  Let a run for executing stand in front of a
boolean flag of a form without a defect.  If what follows the flag does not begin with a blank, an
equals sign or a quotation mark, and its first word is no truth value, then it is read in the same
way with the value `true` in front of it: the values and the number of positional parameters are the
same, and so is the error, but for its position. -/
theorem parseForm_bool_omitted {bindings : List Binding} {pre y r : String}
    (hform : form.defect? = none) (hf : field ∈ form.fields) (hbool : field.type = .bool)
    (hname : ∀ c ∈ field.flagName.toList, c ≠ '=' ∧ Text.isBlank c = false)
    (hm : ((ofText (pre ++ "--" ++ field.flagName ++ " " ++ y)).matchBinding bindings
      .execute).isFailed = false)
    (hreach : Reaches (parameterStep form .execute)
      (((ofText (pre ++ "--" ++ field.flagName ++ " " ++ y)).matchBinding bindings
        .execute).withForm form).rewind s)
    (hstate : s.state = .startParameter) (hcursor : s.cursor = pre.length)
    (hr : ∀ c ∈ r.toList.head?,
      Text.isBlank c = false ∧ c ≠ '=' ∧ c ≠ '"' ∧ c ≠ '\x60')
    (hword : String.ofList (firstWord r.toList) ≠ "true" ∧
      String.ofList (firstWord r.toList) ≠ "false") :
    let parse (v : String) := (((ofText (pre ++ "--" ++ field.flagName ++ " " ++ v)).matchBinding
      bindings .execute).withForm form).parseForm .execute
    (parse ("true " ++ r)).values = (parse r).values ∧
      (parse ("true " ++ r)).positionals = (parse r).positionals ∧
      (parse ("true " ++ r)).error? =
        (parse r).error?.map fun e => { e with position := e.position + 5 } := by
  intro parse
  have hname' : ∀ c ∈ field.flagName.toList, IsNameChar c := by
    intro c hc
    obtain ⟨hequals, hblank⟩ := hname c hc
    exact not_or.mpr ⟨hequals, Bool.eq_false_iff.mp hblank⟩
  have hr' : ∀ c ∈ r.toList.head?, IsNameChar c ∧ ∀ q : Quote, c ≠ q.char := by
    intro c hc
    obtain ⟨hblank, hequals, hquote⟩ := hr c hc
    exact ⟨not_or.mpr ⟨hequals, Bool.eq_false_iff.mp hblank⟩, Quote.forall_ne_char.mpr hquote⟩
  have hword' : acceptsBool .execute (String.ofList (firstWord r.toList)) = false :=
    Bool.or_eq_false_iff.mpr ⟨beq_false_of_ne hword.1, beq_false_of_ne hword.2⟩
  have hbegins (v : String) : pre.toList ++ '-' :: '-' :: field.flagName.toList ++ [' '] <+:
      (pre ++ "--" ++ field.flagName ++ " " ++ v).toList := by
    rw [toList_throughFlag]
    exact List.prefix_append _ _
  have hcursor' : s.cursor = pre.toList.length := hcursor.trans String.length_toList.symm
  have hparse (v : String) : parse v =
      readForm form .execute (s.onText (throughFlag pre.toList field ++ v.toList)) := by
    rw [← toList_throughFlag]
    exact parseForm_onContinuation hm hreach hstate hcursor' (hbegins y) (hbegins v) rfl
  have hsame : parse ("true " ++ r) = (parse r).transplanted
      (throughFlag pre.toList field ++ ("true ".toList ++ r.toList)) 5 := by
    rw [hparse, hparse, String.toList_append]
    exact readForm_bool_omitted hform hf hbool hname' hstate hcursor' hr' hword'
  rw [hsame]
  refine ⟨rfl, rfl, ?_⟩
  rw [error?_transplanted]
  simp only [Nat.add_comm]

/-- A reminder whose note follows the flag at once. -/
theorem parseForm_bool_omitted_reminder :
    let daily : Field := { name := "daily", type := .bool }
    let m := (ofText ("/remind " ++ "--" ++ daily.flagName ++ " " ++ "soon")).matchBinding
      [{ label := "remind" }] .execute
    let parse (v : String) :=
      (((ofText ("/remind " ++ "--" ++ daily.flagName ++ " " ++ v)).matchBinding
        [{ label := "remind" }] .execute).withForm reminderForm).parseForm .execute
    reminderForm.defect? = none ∧ daily ∈ reminderForm.fields ∧ m.isFailed = false ∧
      m.rewind.cursor = "/remind ".length ∧ firstWord "soon".toList = "soon".toList ∧
      (parse ("true " ++ "soon")).values = (parse "soon").values ∧
      (parse ("true " ++ "soon")).positionals = (parse "soon").positionals ∧
      (parse ("true " ++ "soon")).error? =
        (parse "soon").error?.map fun e => { e with position := e.position + 5 } := by
  intro daily m parse
  have hform : reminderForm.defect? = none := by decide
  have hcommand :
      "/remind " ++ "--" ++ daily.flagName ++ " " ++ "soon" = "/remind --daily soon" := by
    decide
  have hm : m = reminder "/remind --daily soon" := by
    rw [show m = (ofText "/remind --daily soon").matchBinding _ _ by rw [← hcommand]]
    exact matchBinding_of_runWithin 20 (reminder "/remind --daily soon") rfl
      (List.cons_ne_nil _ _) rfl
  have hunfailed : m.isFailed = false := by
    rw [hm]
    rfl
  have hcursor : (m.withForm reminderForm).rewind.cursor = "/remind ".length := by
    rw [hm]
    rfl
  refine ⟨hform, List.mem_cons_self, hunfailed, hcursor, by decide, ?_⟩
  exact parseForm_bool_omitted hform List.mem_cons_self rfl (by decide) hunfailed .refl rfl hcursor
    (by decide) (by decide)

end Scan

end SlashCommand
