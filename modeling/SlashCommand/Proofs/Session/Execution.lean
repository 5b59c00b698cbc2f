import SlashCommand.Proofs.Form.Completion
import SlashCommand.Proofs.FormCache.Fetching
import SlashCommand.Proofs.Scan.Endings
import SlashCommand.Proofs.Suggestion.Sources
import Mathlib.Data.Option.Basic

/-!
# The offer to execute a command

While a command is typed it may be offered to execute it as it stands.  The offer is made from the
scan for typing and from the values that are given, but the command is then scanned anew, and its
values are completed before they are checked.  There are two places where this makes a difference:

* A truth value that is cut short in front of a blank is taken as it stands while the command is
  typed, and is read as a parameter of its own when it is executed (`compose_daily_t`).
* The default of a readonly field takes the place of what is given.  If the default carries nothing,
  the field is missing then (`compose_channel_town`).

In all other places the offer keeps its word: `compose_of_execution_offer` says that the command
becomes a request, unless one of its values cannot be expanded.
-/

namespace SlashCommand

namespace Scan

variable {s a e : Scan} {b : Binding} {o : Suggestion} {form : Form}

/-- What the offer to execute a command says about the scan. -/
theorem of_offerExecution? (h : s.offerExecution? = some o) :
    ∃ b, s.binding = some b ∧ s.isAtEnd = true ∧ b.isLeaf = true ∧
      (b.submitCall? s.form).isSome = true ∧
      ∀ form, s.form = some form → form.missingFields s.values = [] := by
  unfold offerExecution? at h
  simp only [Option.bind_eq_bind, Option.bind_eq_some_iff] at h
  obtain ⟨b, hb, _, hguard, -⟩ := h
  unfold guard at hguard
  split at hguard
  · rename_i hall
    simp only [Bool.and_eq_true] at hall
    obtain ⟨⟨⟨hend, hleaf⟩, hcall⟩, hmissing⟩ := hall
    refine ⟨b, hb, hend, hleaf, hcall, fun form hform => ?_⟩
    rw [hform] at hmissing
    exact List.isEmpty_iff.mp hmissing
  · cases hguard

/-- A command that is executed may stop at a leaf. -/
theorem SameLeaf.requireLeaf (h : SameLeaf a e) : SameLeaf a e.requireLeaf := by
  refine ⟨h.form, fun b hb hleaf => ?_⟩
  obtain ⟨ha, he, hrewind⟩ := h.leaf b hb hleaf
  have hbinding : e.binding = some b := (congrArg Scan.binding hrewind).trans hb
  have hsame : e.requireLeaf = e := by
    unfold Scan.requireLeaf
    simp [hbinding, hleaf]
  rw [hsame]
  exact ⟨ha, he, hrewind⟩

/-- If the scan for typing reads a form to where a command may end, and no truth value is cut short
on the way, then the scan for executing reads it to the same end. -/
theorem SameLeaf.parseForm (h : SameLeaf a e) (hb : a.binding = some b) (hleaf : b.isLeaf = true)
    (hspelled : SpellsBools form (a.withForm form).rewind)
    (hend : ((a.withForm form).parseForm .autocomplete).isAtEnd = true) :
    (e.withForm form).parseForm .execute = (a.withForm form).parseForm .autocomplete := by
  obtain ⟨ha, he, hrewind⟩ := h.leaf b hb hleaf
  have hbegin : (e.withForm form).rewind = (a.withForm form).rewind :=
    congrArg (·.withForm form) hrewind
  have hnot {t : Scan} (ht : t.isFailed = false) : ¬ t.isFailed = true := by simp [ht]
  rw [parseForm_withForm, if_neg (hnot ha)] at hend
  rw [parseForm_withForm, parseForm_withForm, if_neg (hnot ha), if_neg (hnot he), hbegin]
  exact readForm_execute hspelled hend

end Scan

namespace Session

variable {s : Session} {backend : Backend Id} {cache cache' : FormCache} {text : String}
  {scan a e : Scan} {b : Binding} {form : Form} {o : Suggestion}

theorem sameLeaf_matchCommand (s : Session) (text : String) :
    Scan.SameLeaf (s.matchCommand text .autocomplete) (s.matchCommand text .execute) :=
  (Scan.sameLeaf_matchBinding text s.bindings).requireLeaf

/-- At a leaf, the form comes from the same place in both modes. -/
theorem formSource_of_sameLeaf (h : Scan.SameLeaf a e) (hb : a.binding = some b)
    (hleaf : b.isLeaf = true) : s.formSource e = s.formSource a := by
  obtain ⟨ha, he, hrewind⟩ := h.leaf b hb hleaf
  have happ : e.appId = a.appId := (congrArg Scan.appId hrewind :)
  have hlocation : e.location = a.location := (congrArg Scan.location hrewind :)
  have hbinding : e.binding = a.binding := (congrArg Scan.binding hrewind :)
  simp only [formSource, ha, he, happ, hlocation, hbinding]

/-- A leaf with a call has a form. -/
theorem formSource_ne_none (ha : a.isFailed = false) (hb : a.binding = some b)
    (hleaf : b.isLeaf = true) (hcall : b.call.isSome = true) : s.formSource a ≠ .none := by
  simp only [formSource, ha, hb, hleaf, hcall]
  split
  · exact nofun
  · exact nofun

/-- What the scan for typing has read at a leaf, up to where the command may end, is read in the
same way by the scan for executing. -/
theorem reads_execute (hsame : Scan.SameLeaf a e)
    (hscan : (a.withForm form).parseForm .autocomplete = scan) (hb : scan.binding = some b)
    (hleaf : b.isLeaf = true) (hend : scan.isAtEnd = true)
    (hspelled : ∀ form, scan.form = some form → Scan.SpellsBools form (a.withForm form).rewind) :
    scan.form = some form ∧ s.formSource e = s.formSource a ∧
      (e.withForm form).parseForm .execute = scan := by
  have hkept := Scan.sameForm_parseForm (a.withForm form) .autocomplete
  rw [hscan] at hkept
  have hb' : a.binding = some b := hkept.binding.symm.trans hb
  refine ⟨hkept.form, formSource_of_sameLeaf hsame hb' hleaf, ?_⟩
  rw [hsame.parseForm hb' hleaf (hspelled form hkept.form) (hscan ▸ hend), hscan]

/-- The scan for typing that offers to execute a command has a form, and with the cache that it
leaves behind the scan for executing comes to the same end. -/
theorem run_parse_execute (hcache : cache.WellFormed)
    (hparse : ((s.parse backend text .autocomplete).run cache).run = (.ok scan, cache'))
    (hoffer : scan.offerExecution? = some o)
    (hspelled : ∀ form, scan.form = some form →
      Scan.SpellsBools form ((s.matchCommand text .autocomplete).withForm form).rewind) :
    (∃ form, scan.form = some form) ∧
      ((s.parse backend text .execute).run cache').run.1 = .ok scan := by
  obtain ⟨b, hb, hend, hleaf, hcall, -⟩ := Scan.of_offerExecution? hoffer
  have hsame := s.sameLeaf_matchCommand text
  cases parsedBy_of_run hparse with
  | formless hsource =>
    -- a leaf with a call would have had a form
    rw [s.form_matchCommand] at hcall
    exact absurd hsource (formSource_ne_none (hsame.leaf b hb hleaf).1 hb hleaf hcall)
  | @inline form hsource =>
    obtain ⟨hform, hsource', hread⟩ := reads_execute (s := s) hsame rfl hb hleaf hend hspelled
    rw [parse_of_inline rfl (hsource'.trans hsource) hread]
    exact ⟨⟨form, hform⟩, rfl⟩
  | @fetched form _ _ _ hsource hfetch =>
    obtain ⟨hform, hsource', hread⟩ := reads_execute (s := s) hsame rfl hb hleaf hend hspelled
    rw [run_parse_of_remote rfl (hsource'.trans hsource), FormCache.run_fetch_again hcache hfetch]
    exact ⟨⟨form, hform⟩, congrArg Except.ok hread⟩

/-- The command becomes a request, unless one of its values cannot be expanded. -/
def Accepted (composed : Except CommandError CallRequest) : Prop :=
  (∃ request, composed = .ok request) ∨ ∃ errors, composed = .error (.expansion errors)

/-- A scan with a form whose fields have all that is required comes to a request, unless one of its
values cannot be expanded. -/
theorem accepted_finish (hnotFailed : scan.error? = none) (hb : scan.binding = some b)
    (hcall : (b.submitCall? scan.form).isSome = true) (hform : scan.form = some form)
    (hmissing : form.missingFields (form.fillDefaults scan.values) = []) :
    Accepted (s.finish backend scan).run := by
  obtain ⟨call, hcall⟩ := Option.isSome_iff_exists.mp hcall
  have hresult : scan.result = .ok scan := Scan.result_eq_ok_iff.mpr ⟨hnotFailed, rfl⟩
  rw [hform] at hcall
  unfold finish
  simp only [hresult, hb, hform, Option.bind_some, hcall, Id.run_bind]
  split
  · exact .inr ⟨_, rfl⟩
  · simp only [hmissing]
    exact .inl ⟨_, rfl⟩

/-! ## Where the offer fails -/

/-- A form with one field. -/
def remindForm (field : Field) : Form where
  fields := [field]
  call := some { path := "/remind" }

/-- A session with one command, which has this form. -/
def remindSession (field : Field) : Session where
  bindings := [{ label := "remind", form := some (remindForm field) }]

/-- A truth value. -/
def dailyField : Field where
  name := "daily"
  type := .bool

/-- A required field that may not be given, and whose default is the empty text. -/
def channelField : Field where
  name := "channel"
  isRequired := true
  readonly := true
  defaultValue := some (.scalar "")

/-- The scan of the command up to its binding, with a flag behind it. -/
def remindScan (field : Field) (command flag : String) : Scan where
  state := .endCommand
  text := command.toList
  cursor := 8 + flag.length
  token := flag
  tokenStart := 8
  location := "/remind"
  binding := (remindSession field).bindings.head?

/-- The scan of the command when its parameters are read. -/
def remindRead (field : Field) (command value : String) : Scan where
  state := .startParameter
  text := command.toList
  cursor := command.length
  tokenStart := command.length
  location := "/remind"
  binding := (remindSession field).bindings.head?
  form := some (remindForm field)
  values := (∅ : Values).insert field.name (.scalar value)

/-- The scan that reads the rest of a truth value as a parameter of its own. -/
def remindFailed : Scan :=
  { remindRead dailyField "/remind --daily t " "true" with
    state := .failed ⟨.noArgumentPosition 1, 16⟩, cursor := 16, tokenStart := 16, positionals := 1 }

theorem matchCommand_remind {field : Field} {command flag : String} {mode : ScanMode}
    (h : (Scan.runWithin (Scan.descentStep mode) 60
      { Scan.ofText command with candidates := (remindSession field).bindings }).map Prod.snd =
        some (remindScan field command flag)) :
    (remindSession field).matchCommand command mode = remindScan field command flag := by
  rw [matchCommand_of_runWithin 60 _ (s := remindSession field) (List.cons_ne_nil _ _) h]
  cases mode with
  | execute => rfl
  | autocomplete => rfl

theorem parse_remind (flag : String) {field : Field} {command : String} {mode : ScanMode}
    {read : Scan}
    (hmatch : (remindSession field).matchCommand command mode = remindScan field command flag)
    (hread : (Scan.runWithin (Scan.parameterStep (remindForm field) mode) 60
      ((remindScan field command flag).withForm (remindForm field)).rewind).map Prod.snd =
        some read) :
    (remindSession field).parse backend command mode = pure (.ok read) :=
  parse_of_inline hmatch rfl (Scan.parseForm_of_runWithin 60 read rfl hread)

theorem parse_daily_t :
    (remindSession dailyField).parse (.offline Id) "/remind --daily t " .autocomplete =
      pure (.ok (remindRead dailyField "/remind --daily t " "t")) :=
  parse_remind "--daily" (matchCommand_remind rfl) rfl

theorem parse_daily_t_execute :
    (remindSession dailyField).parse (.offline Id) "/remind --daily t " .execute =
      pure (.ok remindFailed) :=
  parse_remind "--daily" (matchCommand_remind rfl) rfl

theorem parse_channel_town (mode : ScanMode) :
    (remindSession channelField).parse (.offline Id) "/remind --channel town " mode =
      pure (.ok (remindRead channelField "/remind --channel town " "town")) := by
  cases mode with
  | execute => exact parse_remind "--channel" (matchCommand_remind rfl) rfl
  | autocomplete => exact parse_remind "--channel" (matchCommand_remind rfl) rfl

theorem treeDefect?_remindSession {field : Field} (h : (remindForm field).defect? = none) :
    Binding.treeDefect? (remindSession field).bindings = none := by
  have hlabel : Binding.labelDefect? [] [] "remind" = none := by decide
  rw [Binding.treeDefect?, remindSession, Binding.defectBelow?_cons_eq_none_iff, Option.bind_some]
  exact ⟨hlabel, h, Binding.defectBelow?_nil, Binding.defectBelow?_nil⟩

/-- A truth value that is cut short in front of a blank.  The command is offered to be executed, and
has one parameter too many when it is. -/
theorem compose_daily_t :
    let s := remindSession dailyField
    let suggested := ((s.suggest (.offline Id) "/remind --daily t ").run .empty).run
    Binding.treeDefect? s.bindings = none ∧ (∃ o ∈ suggested.1, o.source = .execute) ∧
    ((s.compose (.offline Id) "/remind --daily t ").run suggested.2).run.1 =
      .error (.parse ⟨.noArgumentPosition 1, 16⟩) := by
  intro s suggested
  refine ⟨treeDefect?_remindSession (by decide), ?_, ?_⟩
  · show ∃ o ∈ ((s.suggest (.offline Id) "/remind --daily t ").run .empty).run.1, _
    rw [suggest_of_parse parse_daily_t rfl]
    exact ⟨_, List.mem_cons_self, rfl⟩
  · rw [compose_of_parse parse_daily_t_execute]
    rfl

/-- A readonly field whose default is empty.  The command gives it a value and is offered to be
executed, and the field is missing when it is. -/
theorem compose_channel_town :
    let s := remindSession channelField
    let suggested := ((s.suggest (.offline Id) "/remind --channel town ").run .empty).run
    Binding.treeDefect? s.bindings = none ∧ (∃ o ∈ suggested.1, o.source = .execute) ∧
    ((s.compose (.offline Id) "/remind --channel town ").run suggested.2).run.1 =
      .error (.requiredFieldsMissing ["channel"]) := by
  intro s suggested
  refine ⟨treeDefect?_remindSession (by decide), ?_, ?_⟩
  · show ∃ o ∈ ((s.suggest (.offline Id) "/remind --channel town ").run .empty).run.1, _
    rw [suggest_of_parse (parse_channel_town .autocomplete) rfl]
    exact ⟨_, List.mem_cons_self, rfl⟩
  · rw [compose_of_parse (parse_channel_town .execute)]
    rfl

/-! ## Where it keeps its word -/

/-- What an offer to execute a command relies on: its form has no defect, no default takes away what
is given, and the text cuts no truth value short. -/
structure Reliable (s : Session) (text : String) (form : Form) : Prop where
  noDefect : form.defect? = none
  keepsGiven : ∀ f ∈ form.fields, f.isErased = false
  spellsBools : Scan.SpellsBools form ((s.matchCommand text .autocomplete).withForm form).rewind

/-- **The offer keeps its word.**  If a session offers to execute a command as it stands, and the
form of the command can be relied on, then the command is executed with the scan that the offer was
made from, and becomes a request unless one of its values cannot be expanded. -/
theorem compose_of_execution_offer (hcache : cache.WellFormed)
    (ho : o ∈ ((s.suggest backend text).run cache).run.1) (hsource : o.source = .execute)
    (hforms : ∀ scan form, ((s.parse backend text .autocomplete).run cache).run.1 = .ok scan →
      scan.form = some form → s.Reliable text form) :
    let composed := ((s.compose backend text).run ((s.suggest backend text).run cache).run.2).run.1
    (∃ scan, ((s.parse backend text .autocomplete).run cache).run.1 = .ok scan ∧
      composed = (s.finish backend scan).run) ∧ Accepted composed := by
  intro composed
  have hexecution : o.isExecution = true := by
    rw [Suggestion.isExecution, hsource]
  obtain ⟨scan, hparse, hnotFailed, hoffer⟩ := offerExecution?_of_mem_suggest ho hexecution
  have hreliable (form : Form) (hform : scan.form = some form) : s.Reliable text form :=
    hforms scan form hparse hform
  obtain ⟨⟨form, hform⟩, hexecute⟩ := run_parse_execute hcache (Prod.ext hparse rfl) hoffer
    fun form hform => (hreliable form hform).spellsBools
  have hcomposed : composed = (s.finish backend scan).run := by
    show ((s.compose backend text).run ((s.suggest backend text).run cache).run.2).run.1 = _
    rw [run_compose, run_suggest]
    dsimp only
    rw [hexecute]
  obtain ⟨b, hb, -, -, hcall, hpresent⟩ := Scan.of_offerExecution? hoffer
  have hmissing : form.missingFields (form.fillDefaults scan.values) = [] :=
    Form.missingFields_fillDefaults (hreliable form hform).noDefect
      (hreliable form hform).keepsGiven (hpresent form hform)
  refine ⟨⟨scan, hparse, hcomposed⟩, ?_⟩
  rw [hcomposed]
  exact accepted_finish hnotFailed hb hcall hform hmissing

theorem matchCommand_daily_true :
    (remindSession dailyField).matchCommand "/remind --daily true " .autocomplete =
      remindScan dailyField "/remind --daily true " "--daily" :=
  matchCommand_remind rfl

theorem parse_daily_true :
    (remindSession dailyField).parse (.offline Id) "/remind --daily true " .autocomplete =
      pure (.ok (remindRead dailyField "/remind --daily true " "true")) :=
  parse_remind "--daily" matchCommand_daily_true rfl

theorem reliable_daily_true :
    (remindSession dailyField).Reliable "/remind --daily true " (remindForm dailyField) where
  noDefect := by decide
  keepsGiven := by decide
  spellsBools t hreach := by
    rw [matchCommand_daily_true] at hreach
    have hchecked := hreach.of_runWithin (n := 30)
      (p := fun t => !decide (Scan.IsAbbreviated (remindForm dailyField) t)) rfl
    simpa using hchecked

/-- Where the truth value is spelled out, the command becomes a request. -/
theorem compose_of_execution_offer_daily :
    let s := remindSession dailyField
    let suggested := ((s.suggest (.offline Id) "/remind --daily true ").run .empty).run
    (∃ o ∈ suggested.1, o.source = .execute) ∧
      Accepted ((s.compose (.offline Id) "/remind --daily true ").run suggested.2).run.1 := by
  intro s suggested
  have hoffered : ∃ o ∈ suggested.1, o.source = .execute := by
    show ∃ o ∈ ((s.suggest (.offline Id) "/remind --daily true ").run .empty).run.1, _
    rw [suggest_of_parse parse_daily_true rfl]
    exact ⟨_, List.mem_cons_self, rfl⟩
  refine ⟨hoffered, ?_⟩
  obtain ⟨o, ho, hsource⟩ := hoffered
  refine (compose_of_execution_offer .empty ho hsource fun scan form hparse hform => ?_).2
  rw [parse_daily_true] at hparse
  cases hparse
  cases hform
  exact reliable_daily_true

end Session

end SlashCommand
