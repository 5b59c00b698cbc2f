import SlashCommand.Proofs.Scan.AnyOrder
import SlashCommand.Proofs.Suggestion.Listed
import Mathlib.Data.List.TakeWhile

/-!
# Lookups that fail

The options of a dynamic field are looked up by a call, which can fail in many ways: there is no
call, the values that are typed so far cannot be expanded, the app cannot be reached or refuses, or
it answers something else than options (`Session.LookupFailure`).  Each of these is offered as one
suggestion, which leaves the command as it is and says what went wrong.

But like all that is offered inside a list, this suggestion is left out if the list has its text
already.  An error has no text, and neither has an element that consists of the marks of mentions,
since the marks do not count.  So behind such an element a failure is not reported
(`Session.suggest_bare_mark`), and everywhere else it is (`Session.suggest_of_lookupFailure`).
-/

namespace SlashCommand

/-- The token consists of marks of mentions. -/
def Scan.IsBareMark (token : String) : Prop := ∀ c ∈ token.toList, c = '@' ∨ c = '~'

theorem Scan.unmarked_eq_empty_iff {token : String} : unmarked token = "" ↔ IsBareMark token := by
  rw [unmarked, ← String.toList_eq_nil_iff, String.toList_ofList, List.dropWhile_eq_nil_iff]
  simp only [IsBareMark, Bool.or_eq_true, beq_iff_eq]

/-- The list of the field that is open has an element that consists of marks. -/
structure Scan.ListsBareMark (s : Scan) (field : Field) : Prop where
  isOpen : s.state.isListElement = true
  hasMark : ∃ token ∈ s.tokensOf field, Scan.IsBareMark token

/-- The empty text counts as listed exactly behind an element of marks. -/
theorem Scan.empty_mem_listedTokens_iff {s : Scan} {field : Field} :
    "" ∈ s.listedTokens field ↔ s.ListsBareMark field := by
  cases hopen : s.state.isListElement with
  | false =>
    rw [listedTokens, if_neg (by rw [hopen]; exact Bool.false_ne_true)]
    refine iff_of_false List.not_mem_nil fun h => ?_
    rw [h.isOpen] at hopen
    cases hopen
  | true =>
    rw [listedTokens_of_list hopen, List.mem_map]
    simp only [unmarked_eq_empty_iff]
    exact ⟨fun h => ⟨hopen, h⟩, fun h => h.hasMark⟩

namespace Session

variable {s : Session} {backend : Backend Id} {scan : Scan} {form : Form} {field : Field}
  {binding : Binding} {message text : String} {cache : FormCache} {request : CallRequest}

/-! ## How a lookup fails -/

/-- The request looks up the options of the field with the values that are typed so far. -/
structure Asks (s : Session) (backend : Backend Id) (scan : Scan) (form : Form) (field : Field)
    (binding : Binding) (request : CallRequest) : Prop where
  hasCall : binding.submitCall? (some form) = some request.call
  expands : (Expansion.expandValues backend s.context.teamId form
    (form.fillDefaults scan.values)).run = .ok request.values
  eq : request = { s.requestFor scan request.call with
    values := request.values
    selectedField := some field.name
    query := some scan.token }

/-- Why no options are found, in words. -/
inductive LookupFailure (s : Session) (backend : Backend Id) (scan : Scan) (form : Form)
    (field : Field) (binding : Binding) : String → Prop
  /-- Neither the form nor the binding has a call. -/
  | noCall (hcall : binding.submitCall? (some form) = none) :
      LookupFailure s backend scan form field binding "Error preparing lookup request."
  /-- The values that are typed so far cannot be expanded. -/
  | unexpanded {call : Call} {errors : List ExpansionError}
      (hcall : binding.submitCall? (some form) = some call)
      (herrors : (Expansion.expandValues backend s.context.teamId form
        (form.fillDefaults scan.values)).run = .error errors) :
      LookupFailure s backend scan form field binding (CommandError.expansion errors).message
  | unreachable {request : CallRequest} {e : BackendError}
      (hasks : s.Asks backend scan form field binding request)
      (hanswer : (backend.performCall request .lookup).run = .error e) :
      LookupFailure s backend scan form field binding e.message
  | refused {request : CallRequest} {reason : Option String}
      (hasks : s.Asks backend scan form field binding request)
      (hanswer : (backend.performCall request .lookup).run = .ok (.error reason)) :
      LookupFailure s backend scan form field binding (reason.getD "Unknown error.")
  | otherForm {request : CallRequest} {other : Form}
      (hasks : s.Asks backend scan form field binding request)
      (hanswer : (backend.performCall request .lookup).run = .ok (.form other)) :
      LookupFailure s backend scan form field binding
        "App response type was not expected. Response type: form"
  | otherPage {request : CallRequest} {url : String}
      (hasks : s.Asks backend scan form field binding request)
      (hanswer : (backend.performCall request .lookup).run = .ok (.navigate url)) :
      LookupFailure s backend scan form field binding
        "App response type was not expected. Response type: navigate"
  /-- The data of the answer are no options. -/
  | undecodable {request : CallRequest} {note : Option String} {data : Datum}
      (hasks : s.Asks backend scan form field binding request)
      (hanswer : (backend.performCall request .lookup).run = .ok (.ok note (some data)))
      (hdata : LookupResponse.ofDatum? data = none) :
      LookupFailure s backend scan form field binding
        "invalid lookup response: not a list of options"

theorem run_lookUp_of_asks (h : s.Asks backend scan form field binding request) :
    (s.lookUp backend scan form field binding).run =
      match (backend.performCall request .lookup).run with
      | .ok response => response.toOptions
      | .error e => .error e.message := by
  rw [lookUp, h.hasCall]
  dsimp only
  rw [Id.run_bind, h.expands]
  dsimp only
  rw [← h.eq, Id.run_bind]
  cases (backend.performCall request .lookup).run with
  | error e => rfl
  | ok response => rfl

theorem run_lookUp_of_unexpanded {call : Call} {errors : List ExpansionError}
    (hcall : binding.submitCall? (some form) = some call)
    (herrors : (Expansion.expandValues backend s.context.teamId form
      (form.fillDefaults scan.values)).run = .error errors) :
    (s.lookUp backend scan form field binding).run =
      .error (CommandError.expansion errors).message := by
  rw [lookUp, hcall]
  dsimp only
  rw [Id.run_bind, herrors]
  rfl

/-- An answer that has no options is one of these failures. -/
theorem LookupFailure.of_answer {response : CallResponse}
    (hasks : s.Asks backend scan form field binding request)
    (hanswer : (backend.performCall request .lookup).run = .ok response)
    (h : response.toOptions = .error message) :
    LookupFailure s backend scan form field binding message := by
  cases response with
  | ok note data =>
    cases data with
    | none => cases h
    | some data =>
      rw [CallResponse.toOptions] at h
      cases hdata : LookupResponse.ofDatum? data with
      | some options =>
        rw [hdata] at h
        cases h
      | none =>
        rw [hdata] at h
        cases h
        exact .undecodable hasks hanswer hdata
  | error reason =>
    cases h
    exact .refused hasks hanswer
  | form other =>
    cases h
    exact .otherForm hasks hanswer
  | navigate url =>
    cases h
    exact .otherPage hasks hanswer

/-- A lookup that finds no options has failed in one of these ways. -/
theorem run_lookUp_eq_error_iff :
    (s.lookUp backend scan form field binding).run = .error message ↔
      LookupFailure s backend scan form field binding message := by
  constructor
  · intro h
    cases hcall : binding.submitCall? (some form) with
    | none =>
      rw [lookUp, hcall] at h
      cases h
      exact .noCall hcall
    | some call =>
      cases hexpand : (Expansion.expandValues backend s.context.teamId form
          (form.fillDefaults scan.values)).run with
      | error errors =>
        rw [run_lookUp_of_unexpanded hcall hexpand] at h
        cases h
        exact .unexpanded hcall hexpand
      | ok typed =>
        have hasks : s.Asks backend scan form field binding { s.requestFor scan call with
            values := typed, selectedField := some field.name, query := some scan.token } :=
          ⟨hcall, hexpand, rfl⟩
        rw [run_lookUp_of_asks hasks] at h
        split at h
        · rename_i response hanswer
          exact .of_answer hasks hanswer h
        · rename_i e hanswer
          cases h
          exact .unreachable hasks hanswer
  · intro h
    cases h with
    | noCall hcall =>
      rw [lookUp, hcall]
      rfl
    | unexpanded hcall herrors => exact run_lookUp_of_unexpanded hcall herrors
    | unreachable hasks hanswer => rw [run_lookUp_of_asks hasks, hanswer]
    | refused hasks hanswer | otherForm hasks hanswer | otherPage hasks hanswer =>
      rw [run_lookUp_of_asks hasks, hanswer]
      rfl
    | undecodable hasks hanswer hdata =>
      rw [run_lookUp_of_asks hasks, hanswer]
      simp only [CallResponse.toOptions, hdata]

/-! ## Where a lookup is asked for -/

/-- The text is read for typing up to a value of a field whose options are looked up. -/
structure AwaitsOption (s : Session) (backend : Backend Id) (text : String) (cache : FormCache)
    (scan : Scan) (form : Form) (field : Field) (binding : Binding) : Prop where
  parses : ((s.parse backend text .autocomplete).run cache).run.1 = .ok scan
  succeeds : scan.error? = none
  hasForm : scan.form = some form
  hasBinding : scan.binding = some binding
  awaits : Scan.AwaitsToken scan.state
  hasField : scan.awaitedField? = some field
  isLookedUp : field.type = .dynamicSelect

/-- A scan of a command has the command for its text. -/
theorem command_of_run_parse
    (h : ((s.parse backend text .autocomplete).run cache).run.1 = .ok scan) :
    scan.command = text := by
  have hmatch : Scan.InBounds text.toList (s.matchCommand text .autocomplete) :=
    (Scan.InBounds.ofText text).matchBinding s.bindings .autocomplete
  have hbounds : Scan.InBounds text.toList scan := by
    cases parsedBy_of_run (Prod.ext h rfl) with
    | formless => exact hmatch
    | inline | fetched => exact (hmatch.act (.withForm _)).parseForm .autocomplete
  rw [Scan.command, hbounds.text_eq, String.ofList_toList]

/-- Without a limit, all that is offered besides executing the command is what completes it. -/
theorem filter_not_isExecution_offers (hmax : s.config.maxSuggestions = none) :
    ((s.offers backend scan).run.filter fun o => !o.isExecution) =
      (s.completions backend scan).map scan.splice := by
  have hexecution : ((s.execution? scan).toList.filter fun o => !o.isExecution) = [] := by
    rw [List.filter_eq_nil_iff]
    intro o ho
    have hoffer := offerExecution?_of_execution? (Option.mem_toList.mp ho)
    rw [Suggestion.isExecution, Scan.source_of_offerExecution? hoffer]
    exact Bool.false_ne_true
  have hcompletions : (((s.completions backend scan).map scan.splice).filter fun o =>
      !o.isExecution) = (s.completions backend scan).map scan.splice := by
    rw [List.filter_eq_self]
    intro o ho
    obtain ⟨found, hfound, rfl⟩ := List.mem_map.mp ho
    rw [scan.isExecution_splice, s.completing_completions backend scan found hfound]
    rfl
  rw [run_offers, hmax]
  dsimp only
  rw [List.filter_append, hexecution, hcompletions, List.nil_append]

/-- Inside a list the command cannot be executed. -/
theorem execution?_of_list (h : scan.state.isListElement = true) : s.execution? scan = none := by
  have hnone : scan.offerExecution? = none := by
    cases hoffer : scan.offerExecution? with
    | none => rfl
    | some o =>
      obtain ⟨b, -, hend, -⟩ := Scan.of_offerExecution? hoffer
      cases hstate : scan.state with
      | list i stage =>
        rw [Scan.isAtEnd, hstate] at hend
        cases hend
      | _ =>
        rw [hstate] at h
        cases h
  rw [execution?, hnone, ite_self]

namespace AwaitsOption

variable (h : s.AwaitsOption backend text cache scan form field binding)

include h

theorem suggest_eq : ((s.suggest backend text).run cache).run.1 = (s.offers backend scan).run :=
  run_suggest_of_run_parse h.parses h.succeeds

/-- A failure is what is offered, unless it counts as listed. -/
theorem parameterOffers_eq (hfailure : LookupFailure s backend scan form field binding message) :
    s.parameterOffers backend scan =
      [Suggestion.ofError text message].filter fun _ => !(scan.listedTokens field).contains "" := by
  have hlookup := run_lookUp_eq_error_iff.mpr hfailure
  have hoffers : s.valueOffers backend scan form field scan.state.quote? =
      [.ofError text message] := by
    rw [valueOffers, h.isLookedUp]
    dsimp only
    rw [offerDynamic, h.hasBinding]
    dsimp only
    rw [Id.run_bind, hlookup, command_of_run_parse h.parses]
    rfl
  have hselect : field.type ≠ .text := by
    rw [h.isLookedUp]
    decide
  rw [parameterOffers, h.hasForm]
  dsimp only
  rw [offerParameters_eq h.hasForm h.awaits h.hasField, run_offerValues, if_neg hselect, hoffers]
  rfl

/-- While a value is typed, no subcommand is offered, and no note on mentions. -/
theorem completions_eq :
    s.completions backend scan =
      if (s.parameterOffers backend scan).isEmpty && (s.execution? scan).isNone &&
          s.config.noMatchPlaceholder
      then [.note "No matching suggestions." ""] else s.parameterOffers backend scan := by
  have hcommand : scan.state ≠ .command := by
    rcases h.awaits.cases with hstate | ⟨i, stage, hstate⟩ | ⟨i, stage, hstate⟩
    all_goals
      rw [hstate]
      exact ScanState.noConfusion
  have hmention : scan.isTypingMention = false := by
    rw [Scan.isTypingMention, h.hasField, Option.any_some, h.isLookedUp]
    rfl
  rw [completions, if_neg hcommand, hmention, List.nil_append, Bool.not_false, Bool.and_true]

/-- Behind an element of marks the failure counts as listed. -/
theorem completions_of_listsBareMark
    (hfailure : LookupFailure s backend scan form field binding message)
    (hmark : scan.ListsBareMark field) :
    s.completions backend scan =
      if s.config.noMatchPlaceholder then [.note "No matching suggestions." ""] else [] := by
  have hnone : s.parameterOffers backend scan = [] := by
    rw [h.parameterOffers_eq hfailure,
      List.contains_iff_mem.mpr (Scan.empty_mem_listedTokens_iff.mpr hmark)]
    rfl
  rw [h.completions_eq, hnone, execution?_of_list hmark.isOpen]
  rfl

theorem completions_of_not_listsBareMark
    (hfailure : LookupFailure s backend scan form field binding message)
    (hmark : ¬ scan.ListsBareMark field) :
    s.completions backend scan = [.ofError text message] := by
  have hunlisted : (scan.listedTokens field).contains "" = false := by
    rw [Bool.eq_false_iff]
    exact fun hmem => hmark (Scan.empty_mem_listedTokens_iff.mp (List.contains_iff_mem.mp hmem))
  rw [h.completions_eq, h.parameterOffers_eq hfailure, hunlisted]
  rfl

end AwaitsOption

/-! ## Where a failure is not reported -/

/-- A field that takes a list of options that are looked up. -/
def attendeesField : Field where
  name := "guests"
  type := .dynamicSelect
  multiselect := true

theorem awaitsOption_attendees {command token : String} {tokens : List String} {tokenStart : Nat}
    (h : (remindSession attendeesField).parse (.offline Id) command .autocomplete =
      pure (.ok (remindListed attendeesField command .bare tokens token tokenStart))) :
    (remindSession attendeesField).AwaitsOption (.offline Id) command .empty
      (remindListed attendeesField command .bare tokens token tokenStart)
      (remindForm attendeesField) attendeesField
      { label := "remind", form := some (remindForm attendeesField) } where
  parses := by
    rw [h]
    rfl
  succeeds := rfl
  hasForm := rfl
  hasBinding := rfl
  awaits := .inr (.inr rfl)
  hasField := rfl
  isLookedUp := rfl

theorem parse_bare_mark :
    (remindSession attendeesField).parse (.offline Id) "/remind --guests [@, b" .autocomplete =
      pure (.ok (remindListed attendeesField "/remind --guests [@, b" .bare ["@"] "b" 21)) :=
  parse_remind "--guests" (matchCommand_remind rfl) (by rfl)

/-- A lookup that cannot be made is not reported behind an element that is a mere mark. -/
theorem suggest_bare_mark :
    let s := remindSession attendeesField
    let form := remindForm attendeesField
    let text := "/remind --guests [@, b"
    Binding.treeDefect? s.bindings = none ∧ s.config.maxSuggestions = none ∧
    ∃ scan binding, s.AwaitsOption (.offline Id) text .empty scan form attendeesField binding ∧
      LookupFailure s (.offline Id) scan form attendeesField binding "call failed: offline" ∧
      ((s.suggest (.offline Id) text).run .empty).run.1 =
        [{ complete := "remind --guests [@,", description := "No matching suggestions.",
           source := .placeholder }] := by
  intro s form text
  have hawaits := awaitsOption_attendees parse_bare_mark
  have hfails : LookupFailure s (.offline Id) (remindListed attendeesField text .bare ["@"] "b" 21)
      form attendeesField { label := "remind", form := some form } "call failed: offline" :=
    run_lookUp_eq_error_iff.mp rfl
  refine ⟨treeDefect?_remindSession (by decide), rfl, _, _, hawaits, hfails, ?_⟩
  rw [hawaits.suggest_eq]
  rfl

/-! ## Where it is -/

/-- **Failures are reported.**  Where the options of a field are looked up and the lookup fails, the
only suggestion besides executing the command says so and leaves the command as it is, unless the
list that is open has an element of marks.  Then there is none, or a note in its place. -/
theorem suggest_of_lookupFailure
    (h : s.AwaitsOption backend text cache scan form field binding)
    (hfailure : LookupFailure s backend scan form field binding message)
    (hmax : s.config.maxSuggestions = none) :
    let others := ((s.suggest backend text).run cache).run.1.filter fun o => !o.isExecution
    (others = [.ofError text message] ↔ ¬ scan.ListsBareMark field) ∧
    (scan.ListsBareMark field → others =
      if s.config.noMatchPlaceholder then [scan.splice (.note "No matching suggestions." "")]
      else []) := by
  intro others
  have hothers : others = (s.completions backend scan).map scan.splice := by
    rw [← filter_not_isExecution_offers hmax, ← h.suggest_eq]
  have hlisted : scan.ListsBareMark field → others =
      if s.config.noMatchPlaceholder then [scan.splice (.note "No matching suggestions." "")]
      else [] := by
    intro hmark
    rw [hothers, h.completions_of_listsBareMark hfailure hmark, apply_ite (List.map scan.splice)]
    rfl
  refine ⟨⟨fun hreported hmark => ?_, fun hmark => ?_⟩, hlisted⟩
  · -- the note is no error, and splicing it leaves it a note
    rw [hlisted hmark] at hreported
    split at hreported
    · have hsource := congrArg (List.map Suggestion.source) hreported
      rw [List.map_singleton, scan.source_splice] at hsource
      cases hsource
    · cases hreported
  · rw [hothers, h.completions_of_not_listsBareMark hfailure hmark]
    rfl

theorem parse_attendees :
    (remindSession attendeesField).parse (.offline Id) "/remind --guests [alice, b" .autocomplete =
      pure (.ok
        (remindListed attendeesField "/remind --guests [alice, b" .bare ["alice"] "b" 25)) :=
  parse_remind "--guests" (matchCommand_remind rfl) (by rfl)

/-- Behind an element of letters it is reported. -/
theorem suggest_of_lookupFailure_attendees :
    let s := remindSession attendeesField
    let text := "/remind --guests [alice, b"
    ((s.suggest (.offline Id) text).run .empty).run.1.filter (fun o => !o.isExecution) =
      [{ complete := "remind --guests [alice, b", description := "Error: call failed: offline",
         source := .error "call failed: offline" }] := by
  intro s text
  have hawaits := awaitsOption_attendees parse_attendees
  have hfails : LookupFailure s (.offline Id)
      (remindListed attendeesField text .bare ["alice"] "b" 25) (remindForm attendeesField)
      attendeesField { label := "remind", form := some (remindForm attendeesField) }
      "call failed: offline" := run_lookUp_eq_error_iff.mp rfl
  have hunmarked : ¬ (remindListed attendeesField text .bare ["alice"] "b" 25).ListsBareMark
      attendeesField := by
    rintro ⟨-, token, htoken, hmark⟩
    rw [tokensOf_remindListed] at htoken
    obtain rfl := List.mem_singleton.mp htoken
    exact absurd (hmark 'a' (by decide)) (by decide)
  exact (suggest_of_lookupFailure hawaits hfails rfl).1.mpr hunmarked

end Session

end SlashCommand
