import SlashCommand.Proofs.Expansion.Values
import SlashCommand.Proofs.Form.Completion
import SlashCommand.Proofs.Scan.Tokens
import SlashCommand.Proofs.Session.Runs

/-!
# What is in a request

A command that is composed into a request has gone through a scan, the defaults, the expansion and
the check of required fields.  Each required field then has a value in the request
(`Session.compose_complete`), whatever the backend answers.

The value carries nothing in one case only: the command gives the field an empty list in brackets.
The check is passed nevertheless if the field has a default, because a default counts for a field as
much as a value, but the default is not put in the place of a list that was given.
-/

namespace SlashCommand

open Expansion (CanReturn canReturn_bind eq_of_canReturn_pure)

namespace Session

variable {σ : Type} {s : Session} {backend : Backend (StateM σ)} {command : String}
  {mode : ScanMode} {cache cache' : FormCache} {state state' : σ} {scan : Scan}
  {request : CallRequest}

/-- A step that runs before another one comes to something that the other one goes on with. -/
theorem run_bind_cases {α β : Type} {x : StateT FormCache (StateM σ) α}
    {f : α → StateT FormCache (StateM σ) β} {b : β}
    (h : ((x >>= f).run cache).run state = ((b, cache'), state')) :
    ∃ a cache₁ state₁, (x.run cache).run state = ((a, cache₁), state₁) ∧
      ((f a).run cache₁).run state₁ = ((b, cache'), state') :=
  ⟨((x.run cache).run state).1.1, ((x.run cache).run state).1.2, ((x.run cache).run state).2,
    rfl, h⟩

/-- A command is matched without reading any parameter. -/
theorem values_matchCommand (s : Session) (command : String) (mode : ScanMode) :
    (s.matchCommand command mode).values = ∅ := by
  have hmatch := (Scan.sameInput_matchBinding (Scan.ofText command) s.bindings mode).values
  rcases s.matchCommand_cases command mode with heq | ⟨e, heq⟩
  · rw [heq]
    exact hmatch
  · rw [heq]
    exact hmatch

theorem parsedBy_of_run_state
    (h : ((s.parse backend command mode).run cache).run state = ((.ok scan, cache'), state')) :
    s.ParsedBy command mode (fun key b context form =>
      ((FormCache.fetch backend key b context).run cache).run state = ((.ok form, cache'), state'))
      scan := by
  cases hsource : s.formSource (s.matchCommand command mode) with
  | none =>
    rw [parse_of_formless rfl hsource] at h
    cases h
    exact .formless hsource
  | inline form =>
    rw [parse_of_inline rfl hsource rfl] at h
    cases h
    exact .inline hsource
  | remote b key context =>
    simp only [parse, hsource] at h
    obtain ⟨result, cache₁, state₁, hfetch, hmap⟩ := run_bind_cases h
    cases result with
    | error e => cases hmap
    | ok form =>
      cases hmap
      exact .fetched hsource hfetch

/-- A command that is scanned is read from where nothing has been stored. -/
theorem exists_of_run_parse
    (h : ((s.parse backend command mode).run cache).run state = ((.ok scan, cache'), state')) :
    ∃ start : Scan, start.values = ∅ ∧ start.parseForm mode = scan := by
  have hvalues := s.values_matchCommand command mode
  cases parsedBy_of_run_state h with
  | formless =>
    refine ⟨_, hvalues, ?_⟩
    rw [Scan.parseForm, s.form_matchCommand]
  | inline | fetched => exact ⟨(s.matchCommand command mode).withForm _, hvalues, rfl⟩

/-- A command that is scanned stores no empty token. -/
theorem filled_of_run_parse
    (h : ((s.parse backend command mode).run cache).run state = ((.ok scan, cache'), state')) :
    Values.Filled scan.values := by
  obtain ⟨start, hvalues, rfl⟩ := exists_of_run_parse h
  refine Scan.filled_parseForm start mode ?_
  rw [hvalues]
  exact Values.Filled.empty

/-- A request is what the end of a scan comes to. -/
theorem exists_scan_of_run_compose
    (h : ((s.compose backend command).run cache).run state = ((.ok request, cache'), state')) :
    ∃ scan cache₁ state₁,
      ((s.parse backend command .execute).run cache).run state = ((.ok scan, cache₁), state₁) ∧
        CanReturn (s.finish backend scan) (.ok request) := by
  obtain ⟨result, cache₁, state₁, hparse, hrest⟩ := run_bind_cases h
  cases result with
  | error e => cases hrest
  | ok scan =>
    have hfinish : ((s.finish backend scan).run state₁).1 = .ok request :=
      congrArg (fun out => out.1.1) hrest
    exact ⟨scan, cache₁, state₁, hparse, state₁, ((s.finish backend scan).run state₁).2,
      Prod.ext hfinish rfl⟩

/-- What a request says of the scan that it comes from. -/
structure ComesFrom (s : Session) (backend : Backend (StateM σ)) (request : CallRequest)
    (scan : Scan) : Prop where
  notFailed : scan.error? = none
  call : scan.binding.bind (·.submitCall? scan.form) = some request.call
  /-- The values of the scan are expanded with the defaults filled in. -/
  expanded : ∀ form, scan.form = some form → CanReturn
    (Expansion.expandValues backend s.context.teamId form (form.fillDefaults scan.values))
    (.ok request.values)
  complete : ∀ form, scan.form = some form →
    form.missingFields (form.fillDefaults scan.values) = []

theorem comesFrom_of_finish (h : CanReturn (s.finish backend scan) (.ok request)) :
    s.ComesFrom backend request scan := by
  unfold finish at h
  split at h
  · cases eq_of_canReturn_pure h
  · rename_i scan' hresult
    obtain ⟨hnotFailed, rfl⟩ := Scan.result_eq_ok_iff.mp hresult
    split at h
    · cases eq_of_canReturn_pure h
    · rename_i call hcall
      cases hform : scan'.form with
      | none =>
        simp only [hform] at h
        rw [Except.ok.inj (eq_of_canReturn_pure h)]
        refine ⟨hnotFailed, hcall, fun form hform' => ?_, fun form hform' => ?_⟩
        · cases hform.symm.trans hform'
        · cases hform.symm.trans hform'
      | some form =>
        simp only [hform] at h
        obtain ⟨result, hexpand, hrest⟩ := canReturn_bind h
        cases result with
        | error errors => cases eq_of_canReturn_pure hrest
        | ok typed =>
          dsimp only at hrest
          split at hrest
          · rename_i hmissing
            rw [Except.ok.inj (eq_of_canReturn_pure hrest)]
            refine ⟨hnotFailed, hcall, fun form' hform' => ?_, fun form' hform' => ?_⟩
            · obtain rfl := Option.some.inj (hform.symm.trans hform')
              exact hexpand
            · obtain rfl := Option.some.inj (hform.symm.trans hform')
              exact hmissing
          · cases eq_of_canReturn_pure hrest

/-! ## A field with a default -/

/-- A required field that takes lists and has a default. -/
def labelsField : Field where
  name := "labels"
  isRequired := true
  multiselect := true
  defaultValue := some (.list ["todo"])

/-- A form with this field only. -/
def tagForm : Form where
  fields := [labelsField]

/-- A session with one command, which has this form. -/
def tagSession : Session where
  bindings := [{ label := "tag", call := some { path := "/tag" }, form := some tagForm }]

/-- A scan of the command up to its binding. -/
def tagScan (command : String) (state : ScanState) (cursor : Nat) (token : String)
    (tokenStart : Nat) : Scan where
  state := state
  text := command.toList
  cursor := cursor
  token := token
  tokenStart := tokenStart
  location := "/tag"
  binding := tagSession.bindings.head?

/-- The scan of the command when its parameters are read. -/
def tagRead (command : String) (state : ScanState) (values : Values) : Scan :=
  { tagScan command state command.length "" command.length with form := some tagForm, values }

theorem matchCommand_tag_nil : tagSession.matchCommand "/tag --labels []" .execute =
    tagScan "/tag --labels []" .endCommand 13 "--labels" 5 :=
  matchCommand_of_runWithin 30 (tagScan "/tag --labels []" .endCommand 13 "--labels" 5)
    (s := tagSession) (List.cons_ne_nil _ _) rfl

theorem parse_tag_nil : tagSession.parse (.offline (StateM Unit)) "/tag --labels []" .execute =
    pure (.ok (tagRead "/tag --labels []" (.listEnd 0)
      ((∅ : Values).insert "labels" (.list [])))) :=
  parse_of_inline matchCommand_tag_nil rfl (Scan.parseForm_of_runWithin 30 _ rfl rfl)

theorem matchCommand_tag_bare :
    tagSession.matchCommand "/tag" .execute = tagScan "/tag" .command 4 "" 4 :=
  matchCommand_of_runWithin 30 (tagScan "/tag" .command 4 "" 4)
    (s := tagSession) (List.cons_ne_nil _ _) rfl

theorem parse_tag_bare : tagSession.parse (.offline (StateM Unit)) "/tag" .execute =
    pure (.ok (tagRead "/tag" .startParameter ∅)) :=
  parse_of_inline matchCommand_tag_bare rfl (Scan.parseForm_of_runWithin 30 _ rfl rfl)

/-- The empty list is taken for a required field that has a default, and goes into the request. -/
theorem compose_tag_nil :
    Binding.treeDefect? tagSession.bindings = none ∧ labelsField.isRequired = true ∧
    ∃ request,
      ((tagSession.compose (.offline (StateM Unit)) "/tag --labels []").run .empty).run () =
        ((.ok request, .empty), ()) ∧
      request.values["labels"]? = some (.texts []) := by
  refine ⟨?_, rfl, ?_⟩
  · exact Binding.defectBelow?_cons_eq_none_iff.mpr
      ⟨by decide, by decide, Binding.defectBelow?_nil, Binding.defectBelow?_nil⟩
  · rw [compose_of_parse parse_tag_nil]
    exact ⟨_, rfl, rfl⟩

/-! ## Complete requests -/

/-- **A request is complete.**  If a command is composed into a request, then whatever the backend
and the cache are, each required field of the form has a value in the request.  It carries nothing
exactly if the field may be given and the command gives it the empty list. -/
theorem compose_complete
    (h : ((s.compose backend command).run cache).run state = ((.ok request, cache'), state')) :
    ∃ scan cache₁ state₁,
      ((s.parse backend command .execute).run cache).run state = ((.ok scan, cache₁), state₁) ∧
      ∀ form, scan.form = some form → form.defect? = none →
        ∀ f ∈ form.fields, f.isRequired = true →
          ∃ v, request.values[f.name]? = some v ∧
            (v.isEmpty = true ↔ f.readonly = false ∧ scan.values[f.name]? = some (.list [])) := by
  obtain ⟨scan, cache₁, state₁, hparse, hfinish⟩ := exists_scan_of_run_compose h
  refine ⟨scan, cache₁, state₁, hparse, ?_⟩
  intro form hform hdefect f hf hrequired
  have hrequest := comesFrom_of_finish hfinish
  have hexpand := hrequest.expanded form hform
  have hmissing := hrequest.complete form hform
  have hpresent : Form.isMissing (form.fillDefaults scan.values) f = false := by
    simpa using List.filter_eq_nil_iff.mp hmissing f hf
  obtain ⟨raw, hraw, hgiven⟩ := Form.exists_value_of_isMissing hdefect hf hrequired hpresent
  obtain ⟨v, hv, hexpanded⟩ := Expansion.exists_of_expandValues hdefect hexpand hf hraw
  obtain ⟨hempty, hnil⟩ := Expansion.isEmpty_of_expandField hexpanded
  refine ⟨v, hv, fun hvempty => ?_, ?_⟩
  · obtain ⟨hreadonly, hstored⟩ := hgiven (hempty hvempty)
    have hfilled : raw.Filled := filled_of_run_parse hparse f.name raw hstored
    rw [hfilled.isEmpty_iff.mp (hempty hvempty)] at hstored
    exact ⟨hreadonly, hstored⟩
  · rintro ⟨hreadonly, hstored⟩
    rw [Form.getElem?_fillDefaults hdefect hf, hstored, Field.completed_of_some hreadonly] at hraw
    exact hnil (Option.some.inj hraw).symm

/-- Where the field is left out, its default goes into the request. -/
theorem compose_complete_tag :
    ∃ request, ((tagSession.compose (.offline (StateM Unit)) "/tag").run .empty).run () =
        ((.ok request, .empty), ()) ∧
      ∃ v, request.values["labels"]? = some v ∧ v.isEmpty = false := by
  have hcompose : ∃ request,
      ((tagSession.compose (.offline (StateM Unit)) "/tag").run .empty).run () =
        ((.ok request, .empty), ()) := by
    rw [compose_of_parse parse_tag_bare]
    exact ⟨_, rfl⟩
  obtain ⟨request, hrun⟩ := hcompose
  obtain ⟨scan, cache₁, state₁, hparse, hcomplete⟩ := compose_complete hrun
  rw [parse_tag_bare] at hparse
  cases hparse
  obtain ⟨v, hv, hempty⟩ := hcomplete tagForm rfl (by decide) labelsField List.mem_cons_self rfl
  refine ⟨request, hrun, v, hv, Bool.eq_false_iff.mpr fun h => ?_⟩
  cases (hempty.mp h).2

end Session

end SlashCommand
