import SlashCommand.Proofs.Session.Runs
import SlashCommand.Proofs.Suggestion.ParameterOffers

/-!
# Which suggestion executes a command

All suggestions but one complete the command that is typed, and leave it to be executed later.  The
one to execute it as it stands is `Scan.offerExecution?` and never another, wherever the scan
stopped and whatever the backend answers (`Session.offerExecution?_of_mem_suggest`).
-/

namespace SlashCommand

/-- The suggestion is to execute the command. -/
def Suggestion.isExecution (o : Suggestion) : Bool := o.source matches .execute

/-- None of the offers is to execute the command. -/
def Completing (offers : List Suggestion) : Prop := ∀ o ∈ offers, o.isExecution = false

namespace Scan

variable (s : Scan)

/-- Splicing a suggestion into the command does not change what it stands for. -/
theorem isExecution_splice (o : Suggestion) : (s.splice o).isExecution = o.isExecution := by
  unfold splice
  split
  · rfl
  · rfl

theorem isExecution_echo (quote : Option Quote) : (s.echo quote).isExecution = false := by
  rw [Suggestion.isExecution]
  rcases s.source_echo quote with hsource | hsource
  · rw [hsource]
  · rw [hsource]

/-- The offer to execute a command stands for that. -/
theorem source_of_offerExecution? {s : Scan} {o : Suggestion} (h : s.offerExecution? = some o) :
    o.source = .execute := by
  unfold offerExecution? at h
  obtain ⟨b, -, hguarded⟩ := Option.bind_eq_some_iff.mp h
  obtain ⟨_, -, hoffer⟩ := Option.bind_eq_some_iff.mp hguarded
  cases hoffer
  rfl

end Scan

namespace Session

variable (s : Session) (backend : Backend Id) (scan : Scan)

/-- The offer to execute the command, if it is wished for. -/
def execution? : Option Suggestion :=
  if s.config.executeSuggestion then scan.offerExecution? else none

/-- The offers for the parameter under the cursor, if there are parameters. -/
def parameterOffers : List Suggestion :=
  match scan.form with
  | some form => (s.offerParameters backend scan form).run
  | none => []

/-- The offers that complete the command, or a note that there are none. -/
def completions : List Suggestion :=
  let commands := if scan.state = .command then scan.offerCommands else []
  let found := commands ++ s.parameterOffers backend scan
  if found.isEmpty && (s.execution? scan).isNone && s.config.noMatchPlaceholder &&
      !scan.isTypingMention
  then [.note "No matching suggestions." ""] else found

/-- The offers are the one to execute the command and then those that complete it, up to the number
that is wished for. -/
theorem run_offers :
    (s.offers backend scan).run =
      let all := (s.execution? scan).toList ++ (s.completions backend scan).map scan.splice
      match s.config.maxSuggestions with
      | some n => all.take n
      | none => all := by
  unfold offers completions parameterOffers
  cases scan.form with
  | none => rfl
  | some form => rfl

variable {s backend scan} {cache : FormCache} {text : String} {o : Suggestion}

/-- The command is not offered to be executed unless it is wished for. -/
theorem offerExecution?_of_execution? (h : s.execution? scan = some o) :
    scan.offerExecution? = some o := by
  unfold execution? at h
  split at h
  · exact h
  · cases h

/-- An offer for a scan is the one to execute the command, or completes it. -/
theorem mem_offers (ho : o ∈ (s.offers backend scan).run) :
    scan.offerExecution? = some o ∨ ∃ found ∈ s.completions backend scan, o = scan.splice found := by
  have hall : o ∈ (s.execution? scan).toList ++ (s.completions backend scan).map scan.splice := by
    rw [run_offers] at ho
    dsimp only at ho
    split at ho
    · exact List.mem_of_mem_take ho
    · exact ho
  rcases List.mem_append.mp hall with ho | ho
  · exact .inl (offerExecution?_of_execution? (Option.mem_toList.mp ho))
  · obtain ⟨found, hmem, rfl⟩ := List.mem_map.mp ho
    exact .inr ⟨found, hmem, rfl⟩

/-- What completes a command is a note that there is nothing, a subcommand, or an offer for the
parameter under the cursor. -/
theorem mem_completions (ho : o ∈ s.completions backend scan) :
    o = .note "No matching suggestions." "" ∨ o ∈ scan.offerCommands ∨
      ∃ form, scan.form = some form ∧ o ∈ (s.offerParameters backend scan form).run := by
  have hcommands : o ∈ (if scan.state = .command then scan.offerCommands else []) →
      o ∈ scan.offerCommands := by
    intro ho
    split at ho
    · exact ho
    · cases ho
  unfold completions at ho
  generalize (if scan.state = .command then scan.offerCommands else []) = commands at ho hcommands
  dsimp only at ho
  split at ho
  · exact .inl (List.mem_singleton.mp ho)
  · rcases List.mem_append.mp ho with ho | ho
    · exact .inr (.inl (hcommands ho))
    · unfold parameterOffers at ho
      split at ho
      · rename_i form hform
        exact .inr (.inr ⟨form, hform, ho⟩)
      · cases ho

/-- No value of a field is an offer to execute the command. -/
theorem OffersValue.isExecution {field : Field} {quote : Option Quote}
    (h : OffersValue s backend scan field quote o) : o.isExecution = false := by
  cases h with
  | echo _ hecho =>
    rw [hecho]
    exact scan.isExecution_echo quote
  | note hsource =>
    rcases hsource with hsource | ⟨message, hsource⟩
    · rw [Suggestion.isExecution, hsource]
    · rw [Suggestion.isExecution, hsource]
  | truth _ hsource | option _ _ _ hsource | lookedUp _ hsource | user _ _ _ _ _ _ hsource
  | channel _ _ _ _ _ _ hsource => rw [Suggestion.isExecution, hsource]

theorem ParameterOffer.isExecution {form : Form} (h : ParameterOffer s backend scan form o) :
    o.isExecution = false := by
  cases h with
  | flag _ hflag =>
    obtain ⟨f, -, rfl⟩ := List.mem_map.mp hflag
    rfl
  | rest hrest =>
    rw [hrest]
    exact scan.isExecution_echo _
  | value _ _ _ hvalue => exact (offersValue_of_mem hvalue).isExecution

/-- What completes a command does not execute it. -/
theorem completing_completions (s : Session) (backend : Backend Id) (scan : Scan) :
    Completing (s.completions backend scan) := by
  intro o ho
  rcases mem_completions ho with rfl | hcommand | ⟨form, hform, hparameter⟩
  · rfl
  · obtain ⟨b, -, rfl⟩ := List.mem_map.mp hcommand
    rfl
  · exact (mem_offerParameters hform hparameter).isExecution

/-- What is offered for the parameter under the cursor completes the command. -/
theorem mem_completions_of_mem {form : Form} (hform : scan.form = some form)
    (ho : o ∈ (s.offerParameters backend scan form).run) : o ∈ s.completions backend scan := by
  have hmem {commands : List Suggestion} : o ∈ commands ++ s.parameterOffers backend scan := by
    rw [parameterOffers, hform]
    exact List.mem_append_right commands ho
  unfold completions
  dsimp only
  rw [List.isEmpty_eq_false_iff.mpr (List.ne_nil_of_mem hmem)]
  exact hmem

/-- What completes a command is offered, unless there are as many offers as there may be. -/
theorem splice_mem_offers (ho : o ∈ s.completions backend scan) :
    scan.splice o ∈ (s.offers backend scan).run ∨
      s.config.maxSuggestions = some (s.offers backend scan).run.length := by
  have hall : scan.splice o ∈
      (s.execution? scan).toList ++ (s.completions backend scan).map scan.splice :=
    List.mem_append_right _ (List.mem_map_of_mem ho)
  rw [run_offers]
  dsimp only
  split
  · rename_i n hmax
    by_cases hle : n ≤ ((s.execution? scan).toList ++
        (s.completions backend scan).map scan.splice).length
    · exact .inr (by rw [hmax, List.length_take, Nat.min_eq_left hle])
    · rw [List.take_of_length_le (Nat.le_of_not_le hle)]
      exact .inl hall
  · exact .inl hall

/-- A suggestion for a text that is no error is offered for the scan of the text. -/
theorem mem_offers_of_mem_suggest (ho : o ∈ ((s.suggest backend text).run cache).run.1)
    (hnote : o.isError = false) :
    ∃ scan, ((s.parse backend text .autocomplete).run cache).run.1 = .ok scan ∧
      scan.error? = none ∧ o ∈ (s.offers backend scan).run := by
  have hnone {message : String} (h : o ∈ [Suggestion.ofError text message]) : False := by
    rw [List.mem_singleton.mp h] at hnote
    cases hnote
  rw [run_suggest] at ho
  dsimp only at ho
  split at ho
  · exact (hnone ho).elim
  · rename_i scan hparse
    split at ho
    · exact (hnone ho).elim
    · rename_i hscan
      exact ⟨scan, hparse, hscan, ho⟩

/-- **The offer to execute.**  Among the suggestions for a text, only `Scan.offerExecution?` of its
scan is to execute the command, and it is made only if the scan has not failed. -/
theorem offerExecution?_of_mem_suggest
    (ho : o ∈ ((s.suggest backend text).run cache).run.1) (hexecution : o.isExecution = true) :
    ∃ scan, ((s.parse backend text .autocomplete).run cache).run.1 = .ok scan ∧
      scan.error? = none ∧ scan.offerExecution? = some o := by
  have hnote : o.isError = false := by
    unfold Suggestion.isExecution at hexecution
    unfold Suggestion.isError
    split at hexecution
    · rename_i hsource
      rw [hsource]
    · cases hexecution
  obtain ⟨scan, hparse, hscan, hoffers⟩ := mem_offers_of_mem_suggest ho hnote
  refine ⟨scan, hparse, hscan, ?_⟩
  rcases mem_offers hoffers with hoffer | ⟨found, hmem, rfl⟩
  · exact hoffer
  · rw [scan.isExecution_splice, s.completing_completions backend scan found hmem] at hexecution
    cases hexecution

end Session

end SlashCommand
