import SlashCommand.Proofs.Expansion.Directory
import SlashCommand.Proofs.Session.Execution
import SlashCommand.Proofs.Suggestion.Offers

/-!
# Values that a list has already

Inside a list, what the list has already is not suggested again.  Suggestions are told apart from
the elements by their texts, without the marks of mentions, while expansion tells the elements apart
by what they resolve to.

The two agree if the names and the identifiers of the directory tell the same people and channels
apart (`Fixtures.NamesApart`), and if an element that has the option of a suggestion is spelled as
it would be suggested (`Fixtures.IsSpelled`): then the suggestion adds an option of its own to the
list, and what the list does not have is suggested (`Session.suggest_listed`).  A name that is typed in another case is
suggested a second time (`Session.suggest_alice`), and so is an option whose value begins with a
mark (`Session.suggest_everyone`).
-/

namespace SlashCommand

/-- A token without the marks of mentions. -/
def Scan.unmarked (token : String) : String :=
  String.ofList (token.toList.dropWhile fun c => c == '@' || c == '~')

/-- The tokens that a field has. -/
def Scan.tokensOf (s : Scan) (field : Field) : List String :=
  (s.values[field.name]?.map Value.tokens).getD []

theorem Scan.listedTokens_of_list {s : Scan} (h : s.state.isListElement = true) (field : Field) :
    s.listedTokens field = (s.tokensOf field).map unmarked :=
  if_pos h

/-! ## Names that tell apart -/

namespace Fixtures

/-- Entries that have one identifier, or one name up to ASCII case, have the same name. -/
def Apart {α : Type} (entries : List α) (id name : α → String) : Prop :=
  ∀ a ∈ entries, ∀ b ∈ entries,
    id a = id b ∨ Text.eqIgnoreAsciiCase (name a) (name b) = true → name a = name b

/-- What has the identifier of an entry that is found by a name has this name. -/
theorem Apart.name_eq {α : Type} {entries : List α} {id name : α → String} {a found e : α}
    (h : Apart entries id name) (ha : a ∈ entries) (hfound : found ∈ entries) (he : e ∈ entries)
    (hname : Text.eqIgnoreAsciiCase (name found) (name a) = true) (hid : id e = id found) :
    name e = name a :=
  (h e he found hfound (.inl hid)).trans (h found hfound a ha (.inr hname))

/-- The names and the identifiers of a directory tell the same users apart, and the same channels
among those that are seen from a team. -/
structure NamesApart (f : Fixtures) (teamId : Option String) : Prop where
  users : Apart f.users (·.id) (·.username)
  channels : Apart (f.channels.filter (·.isIn teamId)) (·.id) (·.name)

/-- The token of a list is spelled as it would be suggested: a mention has the letters of the name
that it is found by, and an option has no mark in front. -/
def IsSpelled (f : Fixtures) (teamId : Option String) (field : Field) (token : String) : Prop :=
  match field.type with
  | .user => ∀ u, f.user? (Text.dropLeading '@' token) = some u → u.username = Scan.unmarked token
  | .channel =>
    ∀ c, f.channel? teamId (Text.dropLeading '~' token) = some c → c.name = Scan.unmarked token
  | _ => Scan.unmarked token = token

end Fixtures

namespace Session

open Expansion

variable {s : Session} {f : Fixtures} {scan : Scan} {field : Field} {o : Suggestion}
  {text new : String} {cache : FormCache} {teamId : Option String} {listed : List String}
  {u : User} {c : Channel} {option : SelectOption}

/-- The token has an option, which is none that the listed tokens have. -/
structure Adds (f : Fixtures) (teamId : Option String) (field : Field) (listed : List String)
    (new : String) (option : SelectOption) : Prop where
  resolves : answer f.backend teamId field new = .ok option
  differs : ∀ token ∈ listed, ∀ earlier, answer f.backend teamId field token = .ok earlier →
    earlier.value ≠ option.value

/-- The two tokens lead to options of one value. -/
def Collide (f : Fixtures) (teamId : Option String) (field : Field) (token new : String) : Prop :=
  ∃ earlier option, answer f.backend teamId field token = .ok earlier ∧
    answer f.backend teamId field new = .ok option ∧ earlier.value = option.value

/-- An option is told apart by its value. -/
theorem exists_adds_option
    (hspelled : ∀ token ∈ listed, Collide f teamId field token option.value →
      f.IsSpelled teamId field token)
    (htype : field.type = .staticSelect) (hoption : option ∈ field.options)
    (hkey : option.value ∉ listed.map Scan.unmarked) :
    ∃ found, Adds f teamId field listed option.value found := by
  have hexists : ∃ found, field.options.find? (·.value == option.value) = some found :=
    Option.isSome_iff_exists.mp (List.find?_isSome.mpr ⟨option, hoption, beq_self_eq_true _⟩)
  have hvalue {token : String} {found : SelectOption}
      (h : field.options.find? (·.value == token) = some found) : found.value = token := by
    have hbeq := List.find?_some h
    exact beq_iff_eq.mp hbeq
  obtain ⟨found, hfound⟩ := hexists
  have hnew : answer f.backend teamId field option.value = .ok found :=
    (Fixtures.answer_staticSelect_iff htype).mpr hfound
  refine ⟨found, hnew, fun token htoken earlier hanswer heq => ?_⟩
  have hspell := hspelled token htoken ⟨earlier, found, hanswer, hnew, heq⟩
  rw [Fixtures.IsSpelled, htype] at hspell
  have htoken' : option.value = Scan.unmarked token := by
    rw [← hvalue hfound, ← heq, hvalue ((Fixtures.answer_staticSelect_iff htype).mp hanswer)]
    exact hspell.symm
  exact hkey (htoken' ▸ List.mem_map_of_mem htoken)

/-- A user is told apart by the name: it is found by it, or another one of the same name is. -/
theorem exists_adds_user
    (hspelled : ∀ token ∈ listed, Collide f teamId field token ("@" ++ u.username) →
      f.IsSpelled teamId field token)
    (hapart : f.NamesApart teamId) (htype : field.type = .user)
    (hu : u ∈ f.users) (hkey : u.username ∉ listed.map Scan.unmarked) :
    ∃ found, Adds f teamId field listed ("@" ++ u.username) found := by
  obtain ⟨v, hvmem, hvname, hnew⟩ := Fixtures.exists_answer_user teamId htype hu
  refine ⟨_, hnew, fun token htoken earlier hanswer heq => ?_⟩
  have hspell := hspelled token htoken ⟨earlier, _, hanswer, hnew, heq⟩
  obtain ⟨w, hw, rfl⟩ := (Fixtures.answer_user_iff htype).mp hanswer
  rw [Fixtures.IsSpelled, htype] at hspell
  have hname : u.username = Scan.unmarked token :=
    (hapart.users.name_eq hu hvmem (Fixtures.mem_of_user? hw).1 hvname heq).symm.trans (hspell w hw)
  exact hkey (hname ▸ List.mem_map_of_mem htoken)

/-- A channel is told apart by the name, among those that are seen from the team. -/
theorem exists_adds_channel
    (hspelled : ∀ token ∈ listed, Collide f teamId field token ("~" ++ c.name) →
      f.IsSpelled teamId field token)
    (hapart : f.NamesApart teamId) (htype : field.type = .channel)
    (hc : c ∈ f.channels.filter (·.isIn teamId)) (hkey : c.name ∉ listed.map Scan.unmarked) :
    ∃ found, Adds f teamId field listed ("~" ++ c.name) found := by
  obtain ⟨d, hdmem, hdname, hnew⟩ := Fixtures.exists_answer_channel htype hc
  refine ⟨_, hnew, fun token htoken earlier hanswer heq => ?_⟩
  have hspell := hspelled token htoken ⟨earlier, _, hanswer, hnew, heq⟩
  obtain ⟨e, he, rfl⟩ := (Fixtures.answer_channel_iff htype).mp hanswer
  rw [Fixtures.IsSpelled, htype] at hspell
  have hname : c.name = Scan.unmarked token :=
    (hapart.channels.name_eq hc hdmem (Fixtures.mem_of_channel? he).1 hdname heq).symm.trans
      (hspell e he)
  exact hkey (hname ▸ List.mem_map_of_mem htoken)

/-- Only options, users and channels have a token. -/
theorem ValueOffer.type_ne {backend : Backend Id} (h : ValueOffer s backend scan field o)
    (hnew : o.source.token? = some new) : field.type ≠ .text ∧ field.type ≠ .bool := by
  cases h with
  | option _ htype | user _ _ htype | channel _ _ htype =>
    rw [htype]
    exact ⟨nofun, nofun⟩
  | other hsource _ =>
    rw [hsource] at hnew
    cases hnew

/-- A suggestion whose text is none of the list's adds an option to it. -/
theorem ValueOffer.exists_adds (h : ValueOffer s f.backend scan field o)
    (hspelled : ∀ token ∈ listed, Collide f s.context.teamId field token new →
      f.IsSpelled s.context.teamId field token)
    (hapart : f.NamesApart s.context.teamId) (hnew : o.source.token? = some new)
    (hkey : o.source.listKey ∉ listed.map Scan.unmarked) :
    ∃ found, Adds f s.context.teamId field listed new found := by
  cases h with
  | option option htype hoption hsource =>
    rw [hsource] at hnew hkey
    cases hnew
    exact exists_adds_option hspelled htype hoption hkey
  | user u users htype _ hfound hmem hsource =>
    rw [hsource] at hnew hkey
    cases hnew
    cases hfound
    exact exists_adds_user hspelled hapart htype (List.mem_filter.mp hmem).1 hkey
  | channel c channels htype _ hfound hmem hsource =>
    rw [hsource] at hnew hkey
    cases hnew
    cases hfound
    exact exists_adds_channel hspelled hapart htype (Fixtures.mem_seen_of_mem hmem) hkey
  | other hsource _ =>
    rw [hsource] at hnew
    cases hnew

/-! ## The suggestions -/

/-- At the end of the text a list of the field is open. -/
structure OpenList (s : Session) (backend : Backend Id) (text : String) (cache : FormCache)
    (scan : Scan) (field : Field) : Prop where
  parses : ((s.parse backend text .autocomplete).run cache).run.1 = .ok scan
  succeeds : scan.error? = none
  isOpen : scan.state.isListElement = true
  hasField : scan.currentField? = some field

namespace OpenList

variable {backend : Backend Id} (h : s.OpenList backend text cache scan field)

include h

theorem suggest_eq : ((s.suggest backend text).run cache).run.1 = (s.offers backend scan).run :=
  run_suggest_of_run_parse h.parses h.succeeds

theorem awaitedField? : scan.awaitedField? = some field := by
  rw [← h.hasField, Scan.awaitedField?]
  have hopen := h.isOpen
  cases hstate : scan.state with
  | startParameter =>
    rw [hstate] at hopen
    cases hopen
  | _ => rfl

/-- The values of the field are what is offered. -/
theorem exists_form : ∃ form, scan.form = some form ∧
    s.offerParameters backend scan form =
      s.offerValues backend scan form field scan.state.quote? := by
  have hcurrent := h.hasField
  simp only [Scan.currentField?, Option.bind_eq_bind, Option.bind_eq_some_iff] at hcurrent
  obtain ⟨i, -, form, hform, -⟩ := hcurrent
  exact ⟨form, hform, offerParameters_eq hform (.inr (.inr h.isOpen)) h.awaitedField?⟩

/-- A suggestion for an option, a user or a channel is offered for the field, and its text is none
of the list's. -/
theorem valueOffer (ho : o ∈ ((s.suggest backend text).run cache).run.1)
    (hnew : o.source.token? = some new) :
    ∃ found, o.source = found.source ∧ ValueOffer s backend scan field found ∧
      (field.type ≠ .text → o.source.listKey ∉ (scan.tokensOf field).map Scan.unmarked) := by
  obtain ⟨scan', form, found, hparse, -, -, hoffer, -, rfl⟩ :=
    exists_parameterOffer_of_mem_suggest ho (Suggestion.isParameter_of_token? hnew)
  obtain rfl := Except.ok.inj (hparse.symm.trans h.parses)
  rw [scan'.source_splice] at hnew ⊢
  refine ⟨found, rfl, ?_⟩
  cases hoffer with
  | flag _ hflag =>
    obtain ⟨f, -, rfl⟩ := List.mem_map.mp hflag
    cases hnew
  | rest hrest =>
    rw [hrest, scan'.token?_echo] at hnew
    cases hnew
  | value field' hfield' hstate hvalue =>
    obtain rfl := Option.some.inj (hfield'.symm.trans h.awaitedField?)
    rw [← Scan.listedTokens_of_list h.isOpen]
    exact valueOffer_of_mem_offerValues hvalue

/-- An option whose label begins with the token is suggested unless the list has its text, or there
are as many suggestions as there may be. -/
theorem exists_suggested (htype : field.type = .staticSelect) (hoption : option ∈ field.options)
    (hbegins : Text.hasPrefix (Text.lowercase scan.token) (Text.lowercase option.label) = true)
    (hkey : option.value ∉ (scan.tokensOf field).map Scan.unmarked) :
    let suggested := ((s.suggest backend text).run cache).run.1
    (∃ o ∈ suggested, o.source = .staticOption option) ∨
      s.config.maxSuggestions = some suggested.length := by
  obtain ⟨form, hform, hoffers⟩ := h.exists_form
  obtain ⟨found, hfound, hsource⟩ :=
    scan.exists_mem_offerOptions scan.state.quote? hoption hbegins
  have hvalues : found ∈ (s.offerParameters backend scan form).run := by
    rw [hoffers, run_offerValues, if_neg (by rw [htype]; nofun), List.mem_filter]
    rw [Scan.listedTokens_of_list h.isOpen, hsource]
    refine ⟨by rwa [valueOffers, htype], ?_⟩
    rw [show (SuggestionSource.staticOption option).listKey = option.value from rfl]
    simpa using hkey
  rw [h.suggest_eq]
  rcases splice_mem_offers (mem_completions_of_mem hform hvalues) with hmem | hmax
  · exact .inl ⟨_, hmem, (scan.source_splice found).trans hsource⟩
  · exact .inr hmax

end OpenList

/-- The scan of a list that is open behind a flag. -/
def remindListed (field : Field) (command : String) (stage : ListStage) (tokens : List String)
    (token : String) (tokenStart : Nat) : Scan where
  state := .list 0 stage
  text := command.toList
  cursor := command.length
  token := token
  tokenStart := tokenStart
  location := "/remind"
  binding := (remindSession field).bindings.head?
  form := some (remindForm field)
  values := (∅ : Values).insert field.name (.list tokens)

theorem openList_remind {field : Field} {backend : Backend Id} {command : String}
    {stage : ListStage} {tokens : List String} {token : String} {tokenStart : Nat}
    (h : (remindSession field).parse backend command .autocomplete =
      pure (.ok (remindListed field command stage tokens token tokenStart))) :
    (remindSession field).OpenList backend command .empty
      (remindListed field command stage tokens token tokenStart) field where
  parses := by
    rw [h]
    rfl
  succeeds := rfl
  isOpen := rfl
  hasField := rfl

theorem tokensOf_remindListed (field : Field) (command : String) (stage : ListStage)
    (tokens : List String) (token : String) (tokenStart : Nat) :
    (remindListed field command stage tokens token tokenStart).tokensOf field = tokens := by
  have hvalue : (remindListed field command stage tokens token tokenStart).values[field.name]? =
      some (.list tokens) := Std.ExtTreeMap.getElem?_insert_self
  rw [Scan.tokensOf, hvalue]
  rfl

theorem parse_alice (backend : Backend Id) :
    (remindSession guestsField).parse backend "/remind --guests [@Alice, @al" .autocomplete =
      pure (.ok (remindListed guestsField "/remind --guests [@Alice, @al" .bare ["@Alice"] "@al"
        26)) :=
  parse_remind "--guests" (matchCommand_remind rfl) (by rfl)

/-- A user that the list has under another spelling is suggested again, and with the suggestion the
list cannot be expanded. -/
theorem suggest_alice :
    let backend : Backend Id := household.backend
    let text := "/remind --guests [@Alice, @al"
    let s := remindSession guestsField
    Binding.treeDefect? s.bindings = none ∧
    ∃ scan, s.OpenList backend text .empty scan guestsField ∧
      scan.tokensOf guestsField = ["@Alice"] ∧
      (∃ o ∈ ((s.suggest backend text).run .empty).run.1, o.source = .user "u1" "alice") ∧
      (expandField backend none guestsField (.list ["@Alice", "@alice"])).run =
        .error ⟨"guests", .duplicate .user "@alice"⟩ := by
  intro backend text s
  have hopen := openList_remind (parse_alice backend)
  refine ⟨treeDefect?_remindSession (by decide), _, hopen, tokensOf_remindListed .., ?_, rfl⟩
  rw [hopen.suggest_eq]
  exact ⟨_, List.mem_cons_self, rfl⟩

/-- An option whose value looks like a mention. -/
def everyone : SelectOption where
  label := "Everyone"
  value := "@all"

/-- An option whose value is the other one without the mark. -/
def allMembers : SelectOption where
  label := "All"
  value := "all"

/-- A field that takes a list of these options. -/
def teamField : Field where
  name := "team"
  type := .staticSelect
  multiselect := true
  options := [everyone, allMembers]

theorem parse_everyone (backend : Backend Id) :
    (remindSession teamField).parse backend "/remind --team [@all, " .autocomplete =
      pure (.ok (remindListed teamField "/remind --team [@all, " .next ["@all"] "" 22)) :=
  parse_remind "--team" (matchCommand_remind rfl) (by rfl)

/-- An option with a mark in front is suggested although the list has it, and the option without the
mark is not although the list does not have it. -/
theorem suggest_everyone :
    let backend : Backend Id := Fixtures.empty.backend
    let text := "/remind --team [@all, "
    let s := remindSession teamField
    Binding.treeDefect? s.bindings = none ∧
    ∃ scan, s.OpenList backend text .empty scan teamField ∧ scan.tokensOf teamField = ["@all"] ∧
      scan.token = "" ∧ s.config.maxSuggestions = none ∧
      ((s.suggest backend text).run .empty).run.1.map (·.source) = [.staticOption everyone] ∧
      (expandField backend none teamField (.list ["@all", "@all"])).run =
        .error ⟨"team", .duplicate .option "@all"⟩ ∧
      (expandField backend none teamField (.list ["@all", "all"])).run =
        .ok (.options [everyone, allMembers]) := by
  intro backend text s
  have hopen := openList_remind (parse_everyone backend)
  refine ⟨treeDefect?_remindSession (by decide), _, hopen, tokensOf_remindListed .., rfl, rfl, ?_,
    rfl, rfl⟩
  rw [hopen.suggest_eq]
  rfl

/-! ## Where the list has each value once -/

/-- **Lists have each value once.**  Where a list of a field is open, what is suggested for it adds
an option that the list does not have, so that the list can still be expanded with it; and an option
whose label begins with what is typed is left out only if the list has its value, or if there are as
many suggestions as there may be.  This asks of the elements that stand for the option, or that
differ from its value by marks in front, to be spelled as they would be suggested. -/
theorem suggest_listed (h : s.OpenList f.backend text cache scan field)
    (hapart : f.NamesApart s.context.teamId) :
    let backend : Backend Id := f.backend
    let suggested := ((s.suggest backend text).run cache).run.1
    let listed := scan.tokensOf field
    let expand tokens := (expandField backend s.context.teamId field (.list tokens)).run
    let IsSpelled token := f.IsSpelled s.context.teamId field token
    (∀ o ∈ suggested, ∀ new, o.source.token? = some new →
      (∀ token ∈ listed, Collide f s.context.teamId field token new → IsSpelled token) →
      ∃ found, Adds f s.context.teamId field listed new found ∧
        ∀ options, expand listed = .ok (.options options) →
          expand (listed ++ [new]) = .ok (.options (options ++ [found]))) ∧
    (field.type = .staticSelect → ∀ option ∈ field.options,
      Text.hasPrefix (Text.lowercase scan.token) (Text.lowercase option.label) = true →
      (∀ token ∈ listed, Scan.unmarked token = option.value → IsSpelled token) →
        (∃ o ∈ suggested, o.source = .staticOption option) ∨ option.value ∈ listed ∨
          s.config.maxSuggestions = some suggested.length) := by
  intro backend suggested listed expand IsSpelled
  refine ⟨fun o ho new hnew hspelled => ?_, fun htype option hoption hbegins hspelled => ?_⟩
  · obtain ⟨found, hsource, hoffer, hunlisted⟩ := h.valueOffer ho hnew
    rw [hsource] at hnew hunlisted
    obtain ⟨htext, hbool⟩ := hoffer.type_ne hnew
    obtain ⟨option, hadds⟩ := hoffer.exists_adds hspelled hapart hnew (hunlisted htext)
    refine ⟨option, hadds, fun options hoptions => ?_⟩
    have hresolves := (run_expandField_eq_ok_iff htext hbool).mp hoptions
    exact (run_expandField_eq_ok_iff htext hbool).mpr
      (hresolves.concat hadds.resolves hadds.differs)
  · by_cases hlisted : option.value ∈ listed
    · exact .inr (.inl hlisted)
    · have hkey : option.value ∉ listed.map Scan.unmarked := by
        intro hmem
        obtain ⟨token, htoken, heq⟩ := List.mem_map.mp hmem
        have hspell : f.IsSpelled s.context.teamId field token := hspelled token htoken heq
        rw [Fixtures.IsSpelled, htype] at hspell
        exact hlisted (heq ▸ hspell.symm ▸ htoken)
      rcases h.exists_suggested htype hoption hbegins hkey with hsuggested | hmax
      · exact .inl hsuggested
      · exact .inr (.inr hmax)

theorem parse_bob (backend : Backend Id) :
    (remindSession guestsField).parse backend "/remind --guests [@Alice, @b" .autocomplete =
      pure (.ok (remindListed guestsField "/remind --guests [@Alice, @b" .bare ["@Alice"] "@b" 26)) :=
  parse_remind "--guests" (matchCommand_remind rfl) (by rfl)

/-- Behind a user who is not spelled as in the directory another one is suggested, who can be added. -/
theorem suggest_listed_bob :
    let backend : Backend Id := household.backend
    let text := "/remind --guests [@Alice, @b"
    let s := remindSession guestsField
    ∃ o ∈ ((s.suggest backend text).run .empty).run.1, o.source = .user "u2" "bob" ∧
      ∃ found, Adds household none guestsField ["@Alice"] "@bob" found := by
  intro backend text s
  have hopen := openList_remind (parse_bob backend)
  have hsuggested : ∃ o ∈ ((s.suggest backend text).run .empty).run.1,
      o.source = .user "u2" "bob" := by
    rw [hopen.suggest_eq]
    exact ⟨_, List.mem_cons_self, rfl⟩
  obtain ⟨o, ho, hsource⟩ := hsuggested
  have htokens := tokensOf_remindListed guestsField text .bare ["@Alice"] "@b" 26
  have hapart : household.NamesApart none := ⟨by unfold Fixtures.Apart; decide, nofun⟩
  have hspelled : ∀ token ∈ ["@Alice"], Collide household none guestsField token "@bob" →
      household.IsSpelled none guestsField token := by
    rintro token htoken ⟨_, _, hearlier, hnew, heq⟩
    obtain rfl := List.mem_singleton.mp htoken
    cases hearlier
    cases hnew
    exact absurd heq (by decide)
  obtain ⟨found, hadds, -⟩ := (suggest_listed hopen hapart).1 o ho "@bob" (by rw [hsource]; rfl)
    (htokens ▸ hspelled)
  exact ⟨o, ho, hsource, found, htokens ▸ hadds⟩

end Session

end SlashCommand
