import SlashCommand.Proofs.Scan.Reach
import SlashCommand.Session.Suggest

/-!
# Commands whose scans are followed

What a session makes of a command depends on the two scans of the command, first for its binding and
then for its parameters.  Where both are known, from `Scan.runWithin` or otherwise,
`compose_of_parse` and `suggest_of_parse` say what is left to do; for a leaf with an inline form the
cache has no part in it.

`ParsedBy` is the other direction: a command that is scanned is scanned as it is matched, with the
inline form of its binding, or with one that is fetched (`parsedBy_of_run`).
-/

namespace SlashCommand

/-- A backend that finds nobody and reaches no app. -/
def Backend.offline (m : Type → Type) [Monad m] : Backend m where
  performCall _ _ := pure (.error (.transport "offline"))
  userByUsername _ := pure (.ok none)
  channelByName _ _ := pure (.ok none)
  usersByPrefix _ := pure (.ok [])
  channelsByPrefix _ _ := pure (.ok [])

/-- The result of a scan that has not failed is the scan itself. -/
theorem Scan.result_eq_ok_iff {scan read : Scan} :
    scan.result = .ok read ↔ scan.error? = none ∧ read = scan := by
  unfold Scan.result
  cases scan.error? with
  | some e => exact iff_of_false nofun nofun
  | none => exact ⟨fun h => ⟨rfl, (Except.ok.inj h).symm⟩, fun h => congrArg _ h.2.symm⟩

namespace Session

variable {m : Type → Type} [Monad m] {s : Session} {backend : Backend m} {command : String}
  {mode : ScanMode} {scan : Scan} {form : Form}

theorem matchCommand_of_runWithin (n : Nat) (last : Scan) (hne : s.bindings ≠ [])
    (h : (Scan.runWithin (Scan.descentStep mode) n
      { Scan.ofText command with candidates := s.bindings }).map Prod.snd = some last) :
    s.matchCommand command mode =
      match mode with
      | .execute => (Scan.matched .execute last).requireLeaf
      | .autocomplete => Scan.matched .autocomplete last := by
  have hmatch := Scan.matchBinding_of_runWithin n last (s := Scan.ofText command) rfl hne h
  cases mode with
  | execute => exact congrArg Scan.requireLeaf hmatch
  | autocomplete => exact hmatch

/-- A command is matched as its text is, or fails because it is executed and stops at no leaf. -/
theorem matchCommand_cases (s : Session) (command : String) (mode : ScanMode) :
    let scan := (Scan.ofText command).matchBinding s.bindings mode
    s.matchCommand command mode = scan ∨ ∃ e, s.matchCommand command mode = scan.fail e := by
  intro scan
  cases mode with
  | autocomplete => exact .inl rfl
  | execute =>
    show scan.requireLeaf = scan ∨ ∃ e, scan.requireLeaf = scan.fail e
    unfold Scan.requireLeaf
    split
    · split
      · exact .inr ⟨_, rfl⟩
      · exact .inl rfl
    · exact .inl rfl

/-- A command is matched without a form. -/
theorem form_matchCommand (s : Session) (command : String) (mode : ScanMode) :
    (s.matchCommand command mode).form = none := by
  have hmatch := Scan.form_matchBinding command s.bindings mode
  rcases s.matchCommand_cases command mode with heq | ⟨e, heq⟩
  · rw [heq]
    exact hmatch
  · rw [heq]
    exact hmatch

/-- A form is fetched for a leaf that has a call and no form of its own. -/
theorem of_formSource_remote {b : Binding} {key : FormKey} {context : CallContext}
    (h : s.formSource scan = .remote b key context) :
    scan.binding = some b ∧ b.form = none ∧ (b.isLeaf && b.call.isSome) = true ∧
      key = s.context.formKey scan.location ∧
      context = s.context.callContext scan.appId scan.location := by
  unfold formSource at h
  split at h
  · rename_i hb
    split at h
    · cases h
    · rename_i hform
      split at h
      · rename_i hcall
        cases h
        exact ⟨hb, hform, hcall, rfl, rfl⟩
      · cases h
  · cases h

/-- A command without a form is scanned as it is matched. -/
theorem parse_of_formless (hmatch : s.matchCommand command mode = scan)
    (hsource : s.formSource scan = .none) : s.parse backend command mode = pure (.ok scan) := by
  have hform : scan.form = none := hmatch ▸ s.form_matchCommand command mode
  unfold parse
  simp only [hmatch, hsource, Scan.parseForm, hform]

/-- A command at a binding with an inline form is scanned with that form. -/
theorem parse_of_inline {read : Scan} (hmatch : s.matchCommand command mode = scan)
    (hsource : s.formSource scan = .inline form)
    (hread : (scan.withForm form).parseForm mode = read) :
    s.parse backend command mode = pure (.ok read) := by
  unfold parse
  simp only [hmatch, hsource, hread]

/-- How a command is scanned: as it is matched, or with the form that comes for its binding. -/
inductive ParsedBy (s : Session) (command : String) (mode : ScanMode)
    (fetched : FormKey → Binding → CallContext → Form → Prop) : Scan → Prop
  | formless (hsource : s.formSource (s.matchCommand command mode) = .none) :
      ParsedBy s command mode fetched (s.matchCommand command mode)
  | inline {form : Form} (hsource : s.formSource (s.matchCommand command mode) = .inline form) :
      ParsedBy s command mode fetched (((s.matchCommand command mode).withForm form).parseForm mode)
  | fetched {form : Form} {b : Binding} {key : FormKey} {context : CallContext}
      (hsource : s.formSource (s.matchCommand command mode) = .remote b key context)
      (hfetch : fetched key b context form) :
      ParsedBy s command mode fetched (((s.matchCommand command mode).withForm form).parseForm mode)

section Lawful

variable [LawfulMonad m]

theorem compose_of_parse (h : s.parse backend command .execute = pure (.ok scan)) :
    s.compose backend command = StateT.lift (s.finish backend scan) := by
  rw [compose, h, pure_bind]

theorem suggest_of_parse (h : s.parse backend command .autocomplete = pure (.ok scan))
    (hscan : scan.error? = none) :
    s.suggest backend command = StateT.lift (s.offers backend scan) := by
  rw [suggest, h, pure_bind]
  simp only [hscan]

end Lawful

/-! ## With a backend that answers at once -/

section Id

variable {backend : Backend Id} {binding : Binding} {key : FormKey} {context : CallContext}

/-- A command at a leaf whose form is fetched is scanned with the form that comes. -/
theorem run_parse_of_remote (hmatch : s.matchCommand command mode = scan)
    (hsource : s.formSource scan = .remote binding key context) (cache : FormCache) :
    ((s.parse backend command mode).run cache).run =
      let out := ((FormCache.fetch backend key binding context).run cache).run
      (out.1.map fun form => (scan.withForm form).parseForm mode, out.2) := by
  simp only [parse, hmatch, hsource]
  rfl

theorem parsedBy_of_run {cache kept : FormCache}
    (h : ((s.parse backend command mode).run cache).run = (.ok scan, kept)) :
    s.ParsedBy command mode (fun key b context form =>
      ((FormCache.fetch backend key b context).run cache).run = (.ok form, kept)) scan := by
  cases hsource : s.formSource (s.matchCommand command mode) with
  | none =>
    rw [parse_of_formless rfl hsource] at h
    cases h
    exact .formless hsource
  | inline form =>
    rw [parse_of_inline rfl hsource rfl] at h
    cases h
    exact .inline hsource
  | remote b key context =>
    rw [run_parse_of_remote rfl hsource] at h
    rcases hfetch : ((FormCache.fetch backend key b context).run cache).run with ⟨answer, kept'⟩
    rw [hfetch] at h
    cases answer with
    | error e => cases h
    | ok form =>
      cases h
      exact .fetched hsource hfetch

theorem run_compose (s : Session) (backend : Backend Id) (command : String) (cache : FormCache) :
    ((s.compose backend command).run cache).run =
      let out := ((s.parse backend command .execute).run cache).run
      (match out.1 with
        | .error e => .error (.form e)
        | .ok scan => (s.finish backend scan).run, out.2) := by
  unfold compose
  rw [StateT.run_bind]
  rcases hout : ((s.parse backend command .execute).run cache).run with ⟨result, cache'⟩
  have hout' : (s.parse backend command .execute).run cache = (result, cache') := hout
  rw [hout']
  cases result with
  | error e => rfl
  | ok scan => rfl

theorem run_suggest (s : Session) (backend : Backend Id) (text : String) (cache : FormCache) :
    ((s.suggest backend text).run cache).run =
      let out := ((s.parse backend text .autocomplete).run cache).run
      (match out.1 with
        | .error e => [.ofError text e.message]
        | .ok scan =>
          match scan.error? with
          | some e => [.ofError text e.error.message]
          | none => (s.offers backend scan).run, out.2) := by
  unfold suggest
  rw [StateT.run_bind]
  rcases hout : ((s.parse backend text .autocomplete).run cache).run with ⟨result, cache'⟩
  have hout' : (s.parse backend text .autocomplete).run cache = (result, cache') := hout
  rw [hout']
  cases result with
  | error e => rfl
  | ok scan =>
    show ((match scan.error? with
      | some e => pure [Suggestion.ofError text e.error.message]
      | none => StateT.lift (s.offers backend scan) : StateT FormCache Id _).run cache').run =
        (match scan.error? with
          | some e => [Suggestion.ofError text e.error.message]
          | none => (s.offers backend scan).run, cache')
    cases scan.error? with
    | some e => rfl
    | none => rfl

/-- For a text that is read without an error the suggestions are what its scan offers. -/
theorem run_suggest_of_run_parse {text : String} {cache : FormCache}
    (hparse : ((s.parse backend text .autocomplete).run cache).run.1 = .ok scan)
    (hscan : scan.error? = none) :
    ((s.suggest backend text).run cache).run.1 = (s.offers backend scan).run := by
  rw [run_suggest]
  dsimp only
  rw [hparse]
  dsimp only
  rw [hscan]

end Id

end Session

end SlashCommand
