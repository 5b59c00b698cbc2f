import SlashCommand.Proofs.Suggestion.Values

/-!
# Where a suggested value comes from

A value that is suggested stands for an option of its field, or for a user or a channel that the
directory has found by what is typed (`Session.ValueOffer`).  Inside a list the text of its source is
none that the list has (`Session.valueOffer_of_mem_offerValues`).
-/

namespace SlashCommand

/-- The token by which an option, a user or a channel is given. -/
def SuggestionSource.token? : SuggestionSource → Option String
  | user _ username => some ("@" ++ username)
  | channel _ name => some ("~" ++ name)
  | staticOption option => some option.value
  | _ => none

theorem Suggestion.isParameter_of_token? {o : Suggestion} {token : String}
    (h : o.source.token? = some token) : o.isParameter = true := by
  rw [isParameter]
  cases hsource : o.source with
  | flag | user | channel | staticOption | dynamicOption | literal => rfl
  | command | execute | placeholder | error =>
    rw [hsource] at h
    cases h

theorem Scan.token?_echo (s : Scan) (quote : Option Quote) :
    (s.echo quote).source.token? = none := by
  rcases s.source_echo quote with hsource | hsource
  · rw [hsource]
    rfl
  · rw [hsource]
    rfl

theorem Scan.source_echo_ne_flag (s : Scan) (quote : Option Quote) (name : String) :
    (s.echo quote).source ≠ .flag name := by
  rcases s.source_echo quote with hsource | hsource
  · rw [hsource]
    exact nofun
  · rw [hsource]
    exact nofun

/-- Each option is offered whose label begins with the token. -/
theorem Scan.exists_mem_offerOptions (s : Scan) (quote : Option Quote) {field : Field}
    {option : SelectOption} (hoption : option ∈ field.options)
    (hbegins : Text.hasPrefix (Text.lowercase s.token) (Text.lowercase option.label) = true) :
    ∃ o ∈ s.offerOptions field quote, o.source = .staticOption option := by
  have hmem : option ∈ field.options.filter fun o =>
      Text.hasPrefix (Text.lowercase s.token) (Text.lowercase o.label) :=
    List.mem_filter.mpr ⟨hoption, hbegins⟩
  unfold offerOptions
  dsimp only
  split
  · rename_i hnil
    rw [hnil] at hmem
    cases hmem
  · exact ⟨_, List.mem_map_of_mem hmem, rfl⟩

namespace Session

variable {s : Session} {backend : Backend Id} {scan : Scan} {form : Form} {field : Field}
  {quote : Option Quote} {o : Suggestion}

/-- What a suggestion stands for is an option of the field, or is found in the directory. -/
inductive ValueOffer (s : Session) (backend : Backend Id) (scan : Scan) (field : Field)
    (o : Suggestion) : Prop
  | option (option : SelectOption) (htype : field.type = .staticSelect)
      (hoption : option ∈ field.options) (hsource : o.source = .staticOption option) :
      ValueOffer s backend scan field o
  | user (u : User) (users : List User) (htype : field.type = .user)
      (htyped : Text.trim scan.token ≠ "") (hfound : (backend.usersByPrefix
        (Text.dropLeading '@' (Text.trim scan.token))).run = .ok users)
      (hmem : u ∈ users) (hsource : o.source = .user u.id u.username)
      (hcomplete : o.complete = "@" ++ u.username) : ValueOffer s backend scan field o
  | channel (c : Channel) (channels : List Channel) (htype : field.type = .channel)
      (htyped : Text.trim scan.token ≠ "") (hfound : (backend.channelsByPrefix s.context.teamId
        (Text.dropLeading '~' (Text.trim scan.token))).run = .ok channels)
      (hmem : c ∈ channels) (hsource : o.source = .channel c.id c.name)
      (hcomplete : o.complete = "~" ++ c.name) : ValueOffer s backend scan field o
  /-- Texts, truth values, options that are looked up, and notes. -/
  | other (hsource : o.source.token? = none) (hflag : ∀ name, o.source ≠ .flag name) :
      ValueOffer s backend scan field o

/-- No value stands for a flag. -/
theorem ValueOffer.source_ne_flag (h : ValueOffer s backend scan field o) (name : String) :
    o.source ≠ .flag name := by
  cases h with
  | option _ _ _ hsource | user _ _ _ _ _ _ hsource | channel _ _ _ _ _ _ hsource =>
    rw [hsource]
    exact nofun
  | other _ hflag => exact hflag name

theorem OffersValue.valueOffer (h : OffersValue s backend scan field quote o) :
    ValueOffer s backend scan field o := by
  cases h with
  | echo _ hecho =>
    rw [hecho]
    exact .other (scan.token?_echo quote) (scan.source_echo_ne_flag quote)
  | option option htype hoption hsource => exact .option option htype hoption hsource
  | user u users htype htyped hfound hmem hsource hcomplete =>
    exact .user u users htype htyped hfound hmem hsource hcomplete
  | channel c channels htype htyped hfound hmem hsource hcomplete =>
    exact .channel c channels htype htyped hfound hmem hsource hcomplete
  | truth _ hsource | lookedUp _ hsource =>
    exact .other (by rw [hsource]; rfl) (by rw [hsource]; exact nofun)
  | note hsource =>
    rcases hsource with hsource | ⟨message, hsource⟩
    · exact .other (by rw [hsource]; rfl) (by rw [hsource]; exact nofun)
    · exact .other (by rw [hsource]; rfl) (by rw [hsource]; exact nofun)

/-- What is offered for a field comes from its options or from the directory, and the open list does
not have its text. -/
theorem valueOffer_of_mem_offerValues
    (ho : o ∈ (s.offerValues backend scan form field quote).run) :
    ValueOffer s backend scan field o ∧
      (field.type ≠ .text → o.source.listKey ∉ scan.listedTokens field) := by
  refine ⟨(offersValue_of_mem ho).valueOffer, fun htype hlisted => ?_⟩
  rw [run_offerValues, if_neg htype] at ho
  have hkey := (List.mem_filter.mp ho).2
  rw [List.contains_iff_mem.mpr hlisted] at hkey
  cases hkey

end Session

end SlashCommand
