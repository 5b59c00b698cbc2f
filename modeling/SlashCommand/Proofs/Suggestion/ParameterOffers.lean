import SlashCommand.Session.Suggest

/-!
# What is offered for a parameter

A scan that stops in a parameter is offered flags, the rest of the line as it is typed, or values of
the field that is awaited (`Session.ParameterOffer`).  `Session.OffersValue` says what such a value
is: where it comes from, and what takes the place of the last token.  `offersValue_of_mem` and
`mem_offerParameters` say that nothing else is offered, whatever the backend answers.
-/

namespace SlashCommand

namespace Scan

/-- The scan is in front of a value or in it. -/
def AwaitsToken (state : ScanState) : Prop :=
  state = .startParameter ∨ state.isValue = true ∨ state.isListElement = true

theorem AwaitsToken.cases {state : ScanState} (h : AwaitsToken state) :
    state = .startParameter ∨ (∃ i stage, state = .value i stage) ∨
      ∃ i stage, state = .list i stage := by
  cases state with
  | startParameter => exact .inl rfl
  | value i stage => exact .inr (.inl ⟨i, stage, rfl⟩)
  | list i stage => exact .inr (.inr ⟨i, stage, rfl⟩)
  | start | command | endCommand | commandSeparator | parameterSeparator | flagDash | flagName |
      listEnd | rest | failed =>
    rcases h with h | h | h
    all_goals cases h

/-- An echo stands for the token, or is a note where there is none. -/
theorem source_echo (s : Scan) (quote : Option Quote) :
    (s.echo quote).source = .placeholder ∨ (s.echo quote).source = .literal s.token := by
  unfold echo
  dsimp only
  split
  · exact .inl rfl
  · exact .inr rfl

end Scan

namespace Session

variable {s : Session} {backend : Backend Id} {scan : Scan} {form : Form} {field : Field}
  {quote : Option Quote} {o : Suggestion}

/-! ## Values -/

/-- What is offered for a field before the elements of a list are left out. -/
def valueOffers (s : Session) (backend : Backend Id) (scan : Scan) (form : Form) (field : Field)
    (quote : Option Quote) : List Suggestion :=
  match field.type with
  | .text => [scan.echo quote]
  | .bool => scan.offerBools field
  | .staticSelect => scan.offerOptions field quote
  | .dynamicSelect => (s.offerDynamic backend scan form field quote).run
  | .user => (offerUsers backend scan field).run
  | .channel => (s.offerChannels backend scan field).run

theorem run_offerValues :
    (s.offerValues backend scan form field quote).run =
      if field.type = .text then s.valueOffers backend scan form field quote
      else (s.valueOffers backend scan form field quote).filter fun o =>
        !(scan.listedTokens field).contains o.source.listKey := by
  unfold offerValues valueOffers
  cases field.type with
  | text =>
    rw [if_pos rfl]
    rfl
  | bool | staticSelect | dynamicSelect | user | channel =>
    rw [if_neg nofun]
    simp only [Id.run_bind, Id.run_pure]

/-- What is offered for the value of a field. -/
inductive OffersValue (s : Session) (backend : Backend Id) (scan : Scan) (field : Field)
    (quote : Option Quote) (o : Suggestion) : Prop
  | echo (htype : field.type = .text) (hecho : o = scan.echo quote) :
      OffersValue s backend scan field quote o
  | truth {literal : String} (htype : field.type = .bool) (hsource : o.source = .literal literal) :
      OffersValue s backend scan field quote o
  | option (option : SelectOption) (htype : field.type = .staticSelect)
      (hoption : option ∈ field.options) (hsource : o.source = .staticOption option)
      (hcomplete : o.complete = Scan.enclose quote option.value) :
      OffersValue s backend scan field quote o
  | lookedUp {option : SelectOption} (htype : field.type = .dynamicSelect)
      (hsource : o.source = .dynamicOption option) : OffersValue s backend scan field quote o
  | user (u : User) (users : List User) (htype : field.type = .user)
      (htyped : Text.trim scan.token ≠ "") (hfound : (backend.usersByPrefix
        (Text.dropLeading '@' (Text.trim scan.token))).run = .ok users)
      (hmem : u ∈ users) (hsource : o.source = .user u.id u.username)
      (hcomplete : o.complete = "@" ++ u.username) : OffersValue s backend scan field quote o
  | channel (c : Channel) (channels : List Channel) (htype : field.type = .channel)
      (htyped : Text.trim scan.token ≠ "") (hfound : (backend.channelsByPrefix s.context.teamId
        (Text.dropLeading '~' (Text.trim scan.token))).run = .ok channels)
      (hmem : c ∈ channels) (hsource : o.source = .channel c.id c.name)
      (hcomplete : o.complete = "~" ++ c.name) : OffersValue s backend scan field quote o
  /-- There is nothing to offer, or the lookup has failed. -/
  | note (hsource : o.source = .placeholder ∨ ∃ message, o.source = .error message) :
      OffersValue s backend scan field quote o

theorem offersValue_of_offerOptions (htype : field.type = .staticSelect)
    (ho : o ∈ scan.offerOptions field quote) : OffersValue s backend scan field quote o := by
  unfold Scan.offerOptions at ho
  dsimp only at ho
  split at ho
  · rw [List.mem_singleton.mp ho]
    exact .note (.inl rfl)
  · obtain ⟨option, hoption, rfl⟩ := List.mem_map.mp ho
    exact .option option htype (List.mem_filter.mp hoption).1 rfl rfl

theorem offersValue_of_offerDynamic (htype : field.type = .dynamicSelect)
    (ho : o ∈ (s.offerDynamic backend scan form field quote).run) :
    OffersValue s backend scan field quote o := by
  unfold offerDynamic at ho
  split at ho
  · cases ho
  · rw [Id.run_bind] at ho
    split at ho
    · rw [List.mem_singleton.mp ho]
      exact .note (.inr ⟨_, rfl⟩)
    · rw [List.mem_singleton.mp ho]
      exact .note (.inl rfl)
    · obtain ⟨option, -, rfl⟩ := List.mem_map.mp ho
      exact .lookedUp htype rfl

theorem offersValue_of_offerUsers (htype : field.type = .user)
    (ho : o ∈ (offerUsers backend scan field).run) : OffersValue s backend scan field quote o := by
  unfold offerUsers at ho
  dsimp only at ho
  split at ho
  · rw [List.mem_singleton.mp ho]
    exact .note (.inl rfl)
  · rename_i htyped
    rw [beq_iff_eq] at htyped
    rw [Id.run_bind] at ho
    split at ho
    · cases ho
    · rename_i users hfound
      obtain ⟨u, hu, rfl⟩ := List.mem_map.mp ho
      exact .user u users htype htyped hfound hu rfl rfl

theorem offersValue_of_offerChannels (htype : field.type = .channel)
    (ho : o ∈ (s.offerChannels backend scan field).run) :
    OffersValue s backend scan field quote o := by
  unfold offerChannels at ho
  dsimp only at ho
  split at ho
  · rw [List.mem_singleton.mp ho]
    exact .note (.inl rfl)
  · rename_i htyped
    rw [beq_iff_eq] at htyped
    rw [Id.run_bind] at ho
    split at ho
    · cases ho
    · rename_i channels hfound
      obtain ⟨c, hc, rfl⟩ := List.mem_map.mp ho
      exact .channel c channels htype htyped hfound hc rfl rfl

/-- Nothing else is offered for a field. -/
theorem offersValue_of_mem (ho : o ∈ (s.offerValues backend scan form field quote).run) :
    OffersValue s backend scan field quote o := by
  have hmem : o ∈ s.valueOffers backend scan form field quote := by
    rw [run_offerValues] at ho
    split at ho
    · exact ho
    · exact (List.mem_filter.mp ho).1
  unfold valueOffers at hmem
  split at hmem
  · rename_i htype
    exact .echo htype (List.mem_singleton.mp hmem)
  · rename_i htype
    obtain ⟨literal, -, rfl⟩ := List.mem_map.mp hmem
    exact .truth htype rfl
  · rename_i htype
    exact offersValue_of_offerOptions htype hmem
  · rename_i htype
    exact offersValue_of_offerDynamic htype hmem
  · rename_i htype
    exact offersValue_of_offerUsers htype hmem
  · rename_i htype
    exact offersValue_of_offerChannels htype hmem

/-! ## Parameters -/

/-- What is offered for the parameter under the cursor: a flag, the rest of the line, or a value of
the field that is awaited. -/
inductive ParameterOffer (s : Session) (backend : Backend Id) (scan : Scan) (form : Form)
    (o : Suggestion) : Prop
  | flag (hstate : scan.state = .startParameter ∨ scan.state = .flagName)
      (h : o ∈ scan.offerFlags form) : ParameterOffer s backend scan form o
  | rest (h : o = scan.echo scan.state.quote?) : ParameterOffer s backend scan form o
  | value (field : Field) (hfield : scan.awaitedField? = some field)
      (hstate : Scan.AwaitsToken scan.state)
      (h : o ∈ (s.offerValues backend scan form field scan.state.quote?).run) :
      ParameterOffer s backend scan form o

theorem mem_offerParameters (hform : scan.form = some form) {o : Suggestion}
    (ho : o ∈ (s.offerParameters backend scan form).run) :
    ParameterOffer s backend scan form o := by
  have hquote {state : ScanState} {quote : Option Quote} (hstate : scan.state = state)
      (hquote : state.quote? = quote) : quote = scan.state.quote? := by
    rw [hstate, hquote]
  unfold offerParameters at ho
  split at ho
  · rename_i hstate
    split at ho
    · rename_i field hnext
      have hfield : scan.awaitedField? = some field := by
        simp only [Scan.awaitedField?, hstate, hform, Option.bind_some, hnext]
      have hnone : none = scan.state.quote? := hquote hstate rfl
      rw [hnone] at ho
      exact .value field hfield (.inl hstate) ho
    · exact .flag (.inl hstate) ho
  · rename_i hstate
    exact .flag (.inr hstate) ho
  · rename_i i hstate
    have hnone : none = scan.state.quote? := hquote hstate rfl
    rw [hnone] at ho
    exact .rest (List.mem_singleton.mp ho)
  · rename_i i stage hstate
    split at ho
    · rename_i field hcurrent
      have hfield : scan.awaitedField? = some field := by
        simp only [Scan.awaitedField?, hstate, hcurrent]
      exact .value field hfield (.inr (.inl (by rw [hstate]; rfl))) ho
    · cases ho
  · rename_i i stage hstate
    split at ho
    · rename_i field hcurrent
      have hfield : scan.awaitedField? = some field := by
        simp only [Scan.awaitedField?, hstate, hcurrent]
      exact .value field hfield (.inr (.inr (by rw [hstate]; rfl))) ho
    · cases ho
  · cases ho

/-- Where a token of a field is awaited, what is offered are values of the field. -/
theorem offerParameters_eq (hform : scan.form = some form) (hawaits : Scan.AwaitsToken scan.state)
    (hfield : scan.awaitedField? = some field) :
    s.offerParameters backend scan form =
      s.offerValues backend scan form field scan.state.quote? := by
  rcases hawaits.cases with hstate | ⟨i, stage, hstate⟩ | ⟨i, stage, hstate⟩
  · rw [Scan.awaitedField?, hstate, hform] at hfield
    have hnext : scan.nextPositional? form = some field := hfield
    simp only [offerParameters, hstate, hnext]
    rfl
  all_goals
    rw [Scan.awaitedField?, hstate] at hfield
    have hcurrent : scan.currentField? = some field := hfield
    simp only [offerParameters, hstate, hcurrent]

end Session

end SlashCommand
