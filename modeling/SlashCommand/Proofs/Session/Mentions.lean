import SlashCommand.Proofs.Expansion.Directory
import SlashCommand.Proofs.Scan.SplicePoint
import SlashCommand.Proofs.Session.Acceptance
import SlashCommand.Proofs.Suggestion.Offers

/-!
# Mentions that are accepted

A user or a channel is suggested by its name, and the suggestion is put into the command as a mention
of the name.  The identifier that the suggestion carries is not in the command: fixtures take the
first of a name up to the case of the ASCII letters (`Fixtures.Identifies`).  A mention that is
accepted is stored, and expanded to this first one (`Session.parse_of_mention`), which is the user
or the channel that was suggested exactly if it has the identifier that the suggestion carries.

Two users whose names differ by case are both suggested, and the mentions of both lead to the first
of them (`Session.parse_twin`).
-/

namespace SlashCommand

/-- The suggestion is a user or a channel in whose name nothing ends a token, and the first user of
this name, or the first channel of this name that is seen from the team, has the identifier. -/
inductive Fixtures.Identifies (f : Fixtures) (teamId : Option String) :
    SuggestionSource → String → Prop
  | user {suggested name : String} {u : User} (hname : ∀ c ∈ name.toList, IsElementChar c)
      (hfirst : f.user? name = some u) : Identifies f teamId (.user suggested name) u.id
  | channel {suggested name : String} {c : Channel} (hname : ∀ c ∈ name.toList, IsElementChar c)
      (hfirst : f.channel? teamId name = some c) :
      Identifies f teamId (.channel suggested name) c.id

theorem Fixtures.Identifies.exists_token {f : Fixtures} {teamId : Option String}
    {source : SuggestionSource} {id : String} (h : f.Identifies teamId source id) :
    ∃ token, source.token? = some token := by
  cases h with
  | user => exact ⟨_, rfl⟩
  | channel => exact ⟨_, rfl⟩

namespace Scan

variable {form : Form} {field : Field} {a s : Scan} {mark : Char} {name : String}

/-- A mention has no other meaning wherever a token may stand. -/
theorem takes_mention (hmark : mark = '@' ∨ mark = '~') (hname : ∀ c ∈ name.toList, IsElementChar c)
    (hstate : AwaitsToken s.state) (hplace : ∀ i, s.state ≠ .list i .separator) :
    Takes form a s field (mark :: name.toList) (mark :: name.toList) := by
  have hmark' : IsElementChar mark ∧ mark ≠ '-' ∧ mark ≠ '=' ∧ mark ≠ 't' ∧ mark ≠ 'f' := by
    rcases hmark with rfl | rfl
    · decide
    · decide
  obtain ⟨helement, hdash, hequals, ht, hf⟩ := hmark'
  have hall : ∀ c ∈ mark :: name.toList, IsElementChar c := by
    intro c hc
    rcases List.mem_cons.mp hc with rfl | hc
    · exact helement
    · exact hname c hc
  refine takes_bare hstate hplace (List.cons_ne_nil _ _) (fun _ => ⟨fun c hc => (hall c hc).1, ?_⟩)
    (fun _ => hall) fun _ htruth => ?_
  · intro c hc
    obtain rfl := Option.some.inj hc
    refine ⟨⟨helement.2.2.2.2, fun hopen => helement.2.2.2.1 hopen.1, helement.1⟩, fun hmarked => ?_⟩
    rcases hmarked with ⟨heq, -⟩ | ⟨heq, -⟩
    · exact absurd heq hdash
    · exact absurd heq hequals
  · have hhead : mark = 't' ∨ mark = 'f' := by
      refine htruth.imp (fun h => ?_) (fun h => ?_)
      · exact (List.cons.inj (String.ofList_inj.mp h)).1
      · exact (List.cons.inj (String.ofList_inj.mp h)).1
    rcases hhead with heq | heq
    · exact absurd heq ht
    · exact absurd heq hf

end Scan

namespace Expansion

variable {backend : Backend Id} {teamId : Option String} {field : Field} {token : String}
  {option : SelectOption}

/-- A single token is expanded to its option, or to the list of it. -/
theorem run_expandField_ofToken (htext : field.type ≠ .text) (hbool : field.type ≠ .bool)
    (h : answer backend teamId field token = .ok option) :
    (expandField backend teamId field (.ofToken field.multiselect token)).run =
      .ok (if field.multiselect then .options [option] else .option option) := by
  unfold Value.ofToken
  split
  · have hresolves : ResolvesTo backend teamId field [token] [option] :=
      ⟨congrArg (fun result => [result]) h, List.pairwise_singleton _ _⟩
    exact (run_expandField_eq_ok_iff htext hbool).mpr hresolves
  · cases htype : field.type with
    | text => exact absurd htype htext
    | bool => exact absurd htype hbool
    | user | channel | staticSelect | dynamicSelect =>
      unfold expandField
      rw [htype]
      exact congrArg (Except.map TypedValue.option) h

end Expansion

namespace Session

open Expansion

variable {s : Session} {backend : Backend Id} {f : Fixtures} {text id : String}
  {cache cache' : FormCache} {form : Form} {scan : Scan} {field : Field} {o found : Suggestion}

/-- The command that a suggestion completes is executed with the token for the field, which leads to
the option. -/
structure Selects (s : Session) (backend : Backend Id) (cache : FormCache) (scan : Scan)
    (field : Field) (o : Suggestion) (token : String) (option : SelectOption) (read : Scan) :
    Prop where
  parses : ((s.parse backend (completedBy scan o) .execute).run cache).run.1 = .ok read
  stores : Stores scan field token read
  /-- The last element of a list leads to the option. -/
  resolves : answer backend s.context.teamId field token = .ok option
  /-- Outside a list the option is all that the field has. -/
  expands : scan.state.isListElement = false →
    (expandField backend s.context.teamId field (.ofToken field.multiselect token)).run =
      .ok (if field.multiselect then .options [option] else .option option)

namespace TypedAtLeaf

variable (h : TypedAtLeaf s backend text cache cache' form scan)

include h

/-- Behind an element of a list there is nothing typed that a mention could begin with. -/
theorem state_ne_separator (hcache : cache.WellFormed) (htrim : Text.trim scan.token ≠ "") (i : Nat) :
    scan.state ≠ .list i .separator := by
  intro hstate
  have hscan : (((Scan.ofText text).matchBinding s.bindings .autocomplete).withForm
      form).parseForm .autocomplete = scan := h.readAtLeaf.scan_eq hcache
  have htoken := Scan.isTyped_parseForm form (by rw [hscan]; exact isFailed_of_error? h.succeeds)
  rw [hscan, hstate] at htoken
  rw [String.toList_eq_nil_iff.mp htoken.2] at htrim
  exact htrim rfl

/-- A mention that is accepted is stored, and leads where the directory says. -/
theorem exists_selects (hcache : cache.WellFormed) {mark : Char} {name : String}
    {option : SelectOption} (hmark : mark = '@' ∨ mark = '~')
    (hname : ∀ c ∈ name.toList, IsElementChar c) (hfield : scan.awaitedField? = some field)
    (hstate : Scan.AwaitsToken scan.state) (htext : field.type ≠ .text)
    (hbool : field.type ≠ .bool) (htrim : Text.trim scan.token ≠ "")
    (hparameter : found.isParameter = true)
    (hcomplete : found.complete = String.singleton mark ++ name)
    (hresolves : answer backend s.context.teamId field (String.singleton mark ++ name) =
      .ok option) :
    ∃ read, s.Selects backend cache' scan field (scan.splice found)
      (String.singleton mark ++ name) option read := by
  obtain ⟨pre, hslash⟩ := h.readAtLeaf.exists_slash hcache
  have hnew : found.complete.toList = mark :: name.toList := by
    rw [hcomplete]
    simp
  have htoken : String.ofList (mark :: name.toList) = String.singleton mark ++ name := by
    rw [← hcomplete, ← hnew, String.ofList_toList]
  have htakes : Scan.Takes form (s.typedFrom text form) scan field (mark :: name.toList)
      (mark :: name.toList) :=
    Scan.takes_mention hmark hname hstate (h.state_ne_separator hcache htrim)
  have hchanged := toList_completedBy_splice hslash hparameter (hnew ▸ List.cons_ne_nil _ _)
  obtain ⟨read, hread, hstores⟩ :=
    h.stores_of_takes hcache hfield hbool htakes (hnew ▸ hchanged)
  rw [htoken] at hstores
  exact ⟨read, hread, hstores, hresolves, fun _ => run_expandField_ofToken htext hbool hresolves⟩

end TypedAtLeaf

/-! ## Where a mention leads to somebody else -/

/-- A field that takes a user. -/
def whoField : Field where
  name := "who"
  type := .user

/-- Two users whose names differ by the case of a letter. -/
def twins : Fixtures where
  users := [⟨"u1", "alice"⟩, ⟨"u2", "Alice"⟩]

/-- The scan of the first letters of a name. -/
def whoTyped : Scan := remindTyped whoField "/remind --who @al" .endBare "@al" 14

/-- The scan of the command with the other name. -/
def whoRead : Scan :=
  { remindRead whoField "/remind --who @Alice" "@Alice" with state := .value 0 .endBare }

theorem matchCommand_who :
    (remindSession whoField).matchCommand "/remind --who @al" .autocomplete =
      remindScan whoField "/remind --who @al" "--who" :=
  matchCommand_remind rfl

theorem parse_who {backend : Backend Id} :
    (remindSession whoField).parse backend "/remind --who @al" .autocomplete =
      pure (.ok whoTyped) :=
  parse_remind "--who" matchCommand_who (by rfl)

theorem parse_who_execute {backend : Backend Id} :
    (remindSession whoField).parse backend "/remind --who @Alice" .execute =
      pure (.ok whoRead) :=
  parse_remind "--who" (matchCommand_remind (by rfl)) (by rfl)

/-- Of two users whose names differ by case the second is suggested too, and the command that the
suggestion completes has the first. -/
theorem parse_twin :
    let backend : Backend Id := twins.backend
    let s := remindSession whoField
    let suggested := ((s.suggest backend "/remind --who @al").run .empty).run
    (twins.users.map (·.id)).Nodup ∧ (twins.users.map (·.username)).Nodup ∧
    (∀ u ∈ twins.users, ∀ c ∈ u.username.toList, IsElementChar c ∧ c ≠ '@' ∧ c ≠ '~') ∧
    Binding.treeDefect? s.bindings = none ∧
    ∃ o ∈ suggested.1, o.source = .user "u2" "Alice" ∧
      ∃ read, ((s.parse backend ("/" ++ o.complete) .execute).run suggested.2).run.1 = .ok read ∧
        ∃ v, read.values["who"]? = some v ∧
          (expandField backend none whoField v).run = .ok (.option ⟨"alice", "u1", none⟩) := by
  intro backend s suggested
  have hsuggest : suggested = ((s.offers backend whoTyped).run, .empty) := by
    show ((s.suggest backend "/remind --who @al").run .empty).run = _
    rw [suggest_of_parse parse_who rfl]
    rfl
  rw [hsuggest]
  refine ⟨by decide, by decide, by decide, treeDefect?_remindSession (by decide), _,
    List.mem_cons_of_mem _ List.mem_cons_self, rfl, whoRead, ?_, .scalar "@Alice",
    Std.ExtTreeMap.getElem?_insert_self, rfl⟩
  · show ((s.parse backend "/remind --who @Alice" .execute).run .empty).run.1 = _
    rw [parse_who_execute]
    rfl

/-! ## Where it leads back -/

/-- **Mentions that are accepted.**  Where a command is typed at a leaf and a user or a channel is
suggested, the command that the suggestion completes is executed without error, and the field, or
the last element of its list, is expanded to the first user or channel of the name.  If this one
has the identifier that the suggestion carries, the mention leads back to it. -/
theorem parse_of_mention (hcache : cache.WellFormed)
    (htyped : s.TypedAtLeaf f.backend text cache cache' form scan)
    (ho : o ∈ ((s.suggest (f.backend : Backend Id) text).run cache).run.1)
    (hid : f.Identifies s.context.teamId o.source id) :
    ∃ field token option read, scan.awaitedField? = some field ∧ o.source.token? = some token ∧
      s.Selects f.backend cache' scan field o token option read ∧ option.value = id := by
  obtain ⟨token, htoken⟩ := hid.exists_token
  obtain ⟨scan', form', found, hparse, -, -, hoffer, hfound, rfl⟩ :=
    exists_parameterOffer_of_mem_suggest ho (Suggestion.isParameter_of_token? htoken)
  rw [htyped.parses] at hparse
  cases hparse
  rw [scan.source_splice] at hid htoken ⊢
  cases hoffer with
  | flag _ hflag =>
    obtain ⟨_, -, rfl⟩ := List.mem_map.mp hflag
    cases hid
  | rest hrest =>
    rw [hrest, scan.token?_echo] at htoken
    cases htoken
  | value field hfield hstate hvalue =>
    cases (valueOffer_of_mem_offerValues hvalue).1 with
    | option option _ _ hsource =>
      rw [hsource] at hid
      cases hid
    | user _ _ htype htrim _ _ hsource hcomplete =>
      rw [hsource] at hid ⊢
      cases hid with
      | user hname hfirst =>
        obtain ⟨read, hselects⟩ := htyped.exists_selects hcache (.inl rfl) hname hfield hstate
          (by rw [htype]; nofun) (by rw [htype]; nofun) htrim hfound hcomplete
          (Fixtures.answer_user _ htype hfirst)
        exact ⟨field, _, _, read, hfield, rfl, hselects, rfl⟩
    | channel _ _ htype htrim _ _ hsource hcomplete =>
      rw [hsource] at hid ⊢
      cases hid with
      | channel hname hfirst =>
        obtain ⟨read, hselects⟩ := htyped.exists_selects hcache (.inr rfl) hname hfield hstate
          (by rw [htype]; nofun) (by rw [htype]; nofun) htrim hfound hcomplete
          (Fixtures.answer_channel htype hfirst)
        exact ⟨field, _, _, read, hfield, rfl, hselects, rfl⟩
    | other hsource _ =>
      rw [hsource] at htoken
      cases htoken

theorem typedAtLeaf_who {backend : Backend Id} :
    (remindSession whoField).TypedAtLeaf backend "/remind --who @al" .empty .empty
      (remindForm whoField) whoTyped where
  parses := by
    rw [parse_who]
    rfl
  succeeds := rfl
  hasForm := rfl
  leaf := ⟨_, rfl, rfl⟩
  noDefect := by decide
  spellsBools t _ := Scan.not_isAbbreviated (by decide)

/-- Of two users whose names differ by case the mention of the first leads back to the suggestion. -/
theorem parse_of_mention_alice :
    let backend : Backend Id := twins.backend
    let s := remindSession whoField
    ∃ o ∈ ((s.suggest backend "/remind --who @al").run .empty).run.1,
      o.source = .user "u1" "alice" ∧
      ∃ field token option read, whoTyped.awaitedField? = some field ∧
        s.Selects backend .empty whoTyped field o token option read ∧ option.value = "u1" := by
  intro backend s
  have hoffered : ∃ o ∈ ((s.suggest backend "/remind --who @al").run .empty).run.1,
      o.source = .user "u1" "alice" := by
    rw [suggest_of_parse parse_who rfl]
    exact ⟨_, List.mem_cons_self, rfl⟩
  obtain ⟨o, ho, hsource⟩ := hoffered
  have hid : twins.Identifies s.context.teamId o.source "u1" := by
    rw [hsource]
    exact .user (u := ⟨"u1", "alice"⟩) (by decide) (by decide)
  obtain ⟨field, token, option, read, hfield, -, hselects, hvalue⟩ :=
    parse_of_mention .empty typedAtLeaf_who ho hid
  exact ⟨o, ho, hsource, field, token, option, read, hfield, hselects, hvalue⟩

end Session

end SlashCommand
