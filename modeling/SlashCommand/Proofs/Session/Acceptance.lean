import SlashCommand.Proofs.Scan.Shapes
import SlashCommand.Proofs.Session.Leaves
import SlashCommand.Proofs.Suggestion.Values

/-!
# Values that are accepted

A suggestion of a value is accepted by putting it into the command, in the place of the last token,
and the command is then executed.  What it has for the field should be what was suggested.

* `TypedAtLeaf.stores_of_takes`: whatever is accepted in the place of the last token is stored, and
  nothing else changes.
* `parse_of_value_suggestion`: a static option is stored if it can be read as it is in its place, as
  `Scan.Storable` says, and a text that is echoed is stored unless it had to be escaped.

The conditions are there because a suggestion is put between marks without escaping anything in it
(`parse_quoted_note`), and between no marks unless it has a space or a tab, although there are other
blanks (`parse_next_week`).
-/

namespace SlashCommand

namespace Session

variable {s : Session} {backend : Backend Id} {cache cache' : FormCache} {text changed : String}
  {scan a e read : Scan} {b : Binding} {form : Form} {field : Field} {o : Suggestion}
  {value : String}

/-! ## What is stored -/

/-- The scan `read` has succeeded and has the value for the field, as the last element of the list
if one is open where `scan` has stopped.  The other fields have what they have there. -/
structure Stores (scan : Scan) (field : Field) (value : String) (read : Scan) : Prop where
  succeeds : read.error? = none
  single : scan.state.isListElement = false →
    read.values[field.name]? = some (.ofToken field.multiselect value)
  element : scan.state.isListElement = true →
    ∃ tokens, scan.values[field.name]? = some (.list tokens) ∧
      read.values[field.name]? = some (.list (tokens ++ [value]))
  others : ∀ name, name ≠ field.name → read.values[name]? = scan.values[name]?

theorem getElem?_insert_of_ne {values : Values} {name name' : String} (v : Value)
    (h : name' ≠ name) : (values.insert name v)[name']? = values[name']? := by
  rw [Std.ExtTreeMap.getElem?_insert, if_neg]
  rw [Std.compare_eq_iff_eq]
  exact h.symm

/-- What is accepted is stored. -/
theorem stores_of_accept (hfailed : read.isFailed = false)
    (hvalues : read.values = scan.accept field value)
    (hlist : scan.state.isListElement = true →
      ∃ tokens, scan.values[field.name]? = some (.list tokens)) : Stores scan field value read := by
  cases hstate : scan.state.isListElement with
  | false =>
    rw [Scan.accept_of_value hstate] at hvalues
    refine ⟨error?_of_isFailed hfailed, fun _ => ?_, fun h => ?_, fun name hname => ?_⟩
    · rw [hvalues, Std.ExtTreeMap.getElem?_insert_self]
    · rw [hstate] at h
      cases h
    · rw [hvalues, getElem?_insert_of_ne _ hname]
  | true =>
    obtain ⟨tokens, htokens⟩ := hlist hstate
    rw [Scan.accept_of_list hstate, Scan.appendTo, htokens] at hvalues
    refine ⟨error?_of_isFailed hfailed, fun h => ?_, fun _ => ⟨tokens, htokens, ?_⟩,
      fun name hname => ?_⟩
    · rw [hstate] at h
      cases h
    · rw [hvalues, Std.ExtTreeMap.getElem?_insert_self]
    · rw [hvalues, getElem?_insert_of_ne _ hname]

/-- At the end of a scan the field of an open list holds its elements. -/
theorem exists_tokens_of_readForm (ha : a.state = .startParameter)
    (hform : (Scan.readForm form .autocomplete a).form = some form)
    (hfield : (Scan.readForm form .autocomplete a).awaitedField? = some field)
    (hlist : (Scan.readForm form .autocomplete a).state.isListElement = true) :
    ∃ tokens, (Scan.readForm form .autocomplete a).values[field.name]? = some (.list tokens) := by
  have hholds : Scan.HoldsList form (Scan.readForm form .autocomplete a) :=
    Scan.holdsList_readForm (Scan.holdsList_of_outside (by rw [ha]; rfl))
  cases hstate : (Scan.readForm form .autocomplete a).state with
  | list i stage =>
    refine hholds i stage field hstate ?_
    simp only [Scan.awaitedField?, hstate] at hfield
    rwa [Scan.currentField?_eq hform (by rw [hstate]; rfl)] at hfield
  | _ =>
    rw [hstate] at hlist
    cases hlist

/-! ## Accepting a value -/

/-- A text is typed at a leaf whose form has no defect, without cutting a truth value short, and
comes to the scan. -/
structure TypedAtLeaf (s : Session) (backend : Backend Id) (text : String)
    (cache cache' : FormCache) (form : Form) (scan : Scan) : Prop where
  parses : ((s.parse backend text .autocomplete).run cache).run = (.ok scan, cache')
  succeeds : scan.error? = none
  hasForm : scan.form = some form
  leaf : ∃ b, scan.binding = some b ∧ b.isLeaf = true
  noDefect : form.defect? = none
  spellsBools : Scan.SpellsBools form (s.typedFrom text form)

/-- The command with another text in the place of its last token, and the open list closed. -/
def changedTo (scan : Scan) (new : List Char) : List Char :=
  scan.text.take scan.tokenStart ++ (new ++ scan.closing)

namespace TypedAtLeaf

variable (h : TypedAtLeaf s backend text cache cache' form scan) (hcache : cache.WellFormed)

include h

theorem readAtLeaf : ReadAtLeaf s backend text cache cache' form scan :=
  ⟨h.parses, h.succeeds, h.hasForm, h.leaf⟩

include hcache

/-- What is known of the last token. -/
theorem lastToken : Scan.LastToken form (s.typedFrom text form) scan := by
  have hlast := Scan.lastToken_readForm h.noDefect (s.stands_typedFrom text form) rfl
    (s.reading_typedFrom text form) h.spellsBools
  rw [h.readAtLeaf.readForm_eq hcache] at hlast
  exact hlast (isFailed_of_error? h.succeeds)

/-- Where a list is open, its field holds it. -/
theorem exists_tokens (hfield : scan.awaitedField? = some field)
    (hlist : scan.state.isListElement = true) :
    ∃ tokens, scan.values[field.name]? = some (.list tokens) := by
  have hread := h.readAtLeaf.readForm_eq hcache
  rw [← hread] at hfield hlist ⊢
  exact exists_tokens_of_readForm rfl (hread.symm ▸ h.hasForm) hfield hlist

/-- Where the changed command is matched to the leaf as the typed one is, it is scanned with the
same form. -/
theorem parse_changed
    (hsame : (s.matchCommand changed .autocomplete).rewind =
      (s.matchCommand text .autocomplete).rewind.onText changed.toList) :
    let e := s.matchCommand changed .execute
    e.isFailed = false ∧
      e.rewind = (s.matchCommand text .autocomplete).rewind.onText changed.toList ∧
      ((s.parse backend changed .execute).run cache').run.1 =
        .ok ((e.withForm form).parseForm .execute) := by
  obtain ⟨b, hb, hleaf, -⟩ := h.readAtLeaf.exists_leaf hcache
  obtain ⟨he, hrewind, hsource⟩ := matchCommand_changed hb hleaf hsame
  exact ⟨he, hrewind, (run_parse_again hcache h.parses h.hasForm).2 changed .execute hsource⟩

/-- What is accepted in the place of the last token is stored when the command is executed. -/
theorem stores_of_takes {new token : List Char} (hfield : scan.awaitedField? = some field)
    (hbool : field.type ≠ .bool)
    (htakes : Scan.Takes form (s.typedFrom text form) scan field new token)
    (hchanged : changed.toList = changedTo scan new) :
    ∃ read, ((s.parse backend changed .execute).run cache').run.1 = .ok read ∧
      Stores scan field (String.ofList token) read := by
  obtain ⟨b, -, -, hfailed⟩ := h.readAtLeaf.exists_leaf hcache
  obtain ⟨more, hmore, hplain, hread⟩ := Scan.parseForm_retyped h.noDefect hfailed
    (s.stands_typedFrom text form) (s.tokenStart_matchCommand_le text) h.spellsBools
    (h.readAtLeaf.scan_eq hcache) (isFailed_of_error? h.succeeds) hfield hbool htakes
  rw [text_matchCommand] at hmore hread
  have hnew : changed.toList =
      text.toList.take (s.matchCommand text .autocomplete).tokenStart ++ more := by
    rw [hchanged, changedTo, h.readAtLeaf.text_eq hcache]
    exact hmore
  have hsame := h.readAtLeaf.matchCommand_retyped hcache hnew hplain
  obtain ⟨he, hrewind, hparse⟩ := h.parse_changed hcache hsame
  obtain ⟨hsucceeds, hvalues⟩ := hread _ he (hnew ▸ hrewind)
  exact ⟨_, hparse, stores_of_accept hsucceeds hvalues (h.exists_tokens hcache hfield)⟩

/-- The rest of the line is stored as it is when the command is executed. -/
theorem stores_rest {i : Nat} (hstate : scan.state = .rest i)
    (hfield : scan.awaitedField? = some field) (hchanged : changed = text) :
    ∃ read, ((s.parse backend changed .execute).run cache').run.1 = .ok read ∧
      Stores scan field scan.token read := by
  subst hchanged
  obtain ⟨b, hb, hleaf, -⟩ := h.readAtLeaf.exists_leaf hcache
  have hsame : (s.matchCommand changed .autocomplete).rewind =
      (s.matchCommand changed .autocomplete).rewind.onText changed.toList := by
    rw [← s.text_matchCommand changed]
    rfl
  obtain ⟨-, -, hparse⟩ := h.parse_changed hcache hsame
  have hscan := h.readAtLeaf.scan_eq hcache
  have hend : (((s.matchCommand changed .autocomplete).withForm form).parseForm
      .autocomplete).isAtEnd = true := by
    rw [hscan, Scan.isAtEnd, hstate]
  have hread := (s.sameLeaf_matchCommand changed).parseForm hb hleaf h.spellsBools hend
  rw [hread, hscan] at hparse
  have hget : form.fields[i]? = some field := by
    simp only [Scan.awaitedField?, hstate] at hfield
    rwa [Scan.currentField?_eq h.hasForm (by rw [hstate]; rfl)] at hfield
  refine ⟨scan, hparse, h.succeeds, fun _ => ((h.lastToken hcache).rest i field hstate hget).2,
    fun hlist => ?_, fun _ _ => rfl⟩
  rw [hstate] at hlist
  cases hlist

end TypedAtLeaf

/-- The command that a suggestion completes, with the open list closed. -/
def completedBy (scan : Scan) (o : Suggestion) : String :=
  "/" ++ o.complete ++ (if scan.state.isListElement then "]" else "")

theorem toList_completedBy (scan : Scan) (o : Suggestion) :
    (completedBy scan o).toList = '/' :: o.complete.toList ++ scan.closing := by
  unfold completedBy Scan.closing
  split
  · simp
  · simp

/-- A suggestion that is put in the place of the last token completes the command that is changed
there. -/
theorem toList_completedBy_splice {pre : List Char} {found : Suggestion}
    (hslash : scan.text.take scan.tokenStart = '/' :: pre) (hparameter : found.isParameter = true)
    (hne : found.complete.toList ≠ []) :
    (completedBy scan (scan.splice found)).toList = changedTo scan found.complete.toList := by
  rw [toList_completedBy, Scan.complete_splice hslash hparameter hne, changedTo, List.append_assoc]

/-! ## Where a suggestion fails -/

/-- An option with a no-break space in its value. -/
def nextWeek : SelectOption where
  label := "Next week"
  value := "next\u00a0week"

/-- An option with a space in its value. -/
def nextMonth : SelectOption where
  label := "Next month"
  value := "next month"

/-- A field with these options. -/
def whenField : Field where
  name := "when"
  type := .staticSelect
  options := [nextWeek, nextMonth]

/-- The scan of a command whose only flag has a value under way. -/
def remindTyped (field : Field) (command : String) (stage : ValueStage) (token : String)
    (tokenStart : Nat) : Scan where
  state := .value 0 stage
  text := command.toList
  cursor := command.length
  token := token
  tokenStart := tokenStart
  location := "/remind"
  binding := (remindSession field).bindings.head?
  form := some (remindForm field)

/-- The scan of the option where the flag of the field is typed with its first letter. -/
def whenTyped : Scan := remindTyped whenField "/remind --when N" .endBare "N" 15

/-- The scan that takes the second part of the option for a parameter of its own. -/
def weekFailed : Scan :=
  { remindRead whenField "/remind --when next\u00a0week" "next" with
    state := .failed ⟨.noArgumentPosition 1, 20⟩, cursor := 20, tokenStart := 20, positionals := 1 }

theorem matchCommand_when :
    (remindSession whenField).matchCommand "/remind --when N" .autocomplete =
      remindScan whenField "/remind --when N" "--when" :=
  matchCommand_remind rfl

theorem parse_when :
    (remindSession whenField).parse (.offline Id) "/remind --when N" .autocomplete =
      pure (.ok whenTyped) :=
  parse_remind "--when" matchCommand_when (by rfl)

theorem parse_next_week_execute :
    (remindSession whenField).parse (.offline Id) "/remind --when next\u00a0week" .execute =
      pure (.ok weekFailed) :=
  parse_remind "--when" (matchCommand_remind (by rfl)) (by rfl)

/-- An option with a no-break space is not put between ticks, although the blank ends a value.  The
command that is completed has one parameter too many when it is executed. -/
theorem parse_next_week :
    let s := remindSession whenField
    let suggested := ((s.suggest (.offline Id) "/remind --when N").run .empty).run
    Binding.treeDefect? s.bindings = none ∧
    ∃ o ∈ suggested.1, o.source = .staticOption nextWeek ∧
      ∃ read, ((s.parse (.offline Id) ("/" ++ o.complete) .execute).run suggested.2).run.1 =
          .ok read ∧ read.error? = some ⟨.noArgumentPosition 1, 20⟩ := by
  intro s suggested
  have hsuggest : suggested = ((s.offers (.offline Id) whenTyped).run, .empty) := by
    show ((s.suggest (.offline Id) "/remind --when N").run .empty).run = _
    rw [suggest_of_parse parse_when rfl]
    rfl
  rw [hsuggest]
  refine ⟨treeDefect?_remindSession (by decide), _, List.mem_cons_self, rfl, weekFailed, ?_, rfl⟩
  show ((s.parse (.offline Id) "/remind --when next\u00a0week" .execute).run .empty).run.1 = _
  rw [parse_next_week_execute]
  rfl

/-- A text. -/
def noteField : Field where
  name := "note"

/-- The scan of a quotation with a quotation mark in it. -/
def noteTyped : Scan :=
  remindTyped noteField "/remind --note \"a\\\"b\"" (.endQuoted .double) "a\"b" 15

/-- The scan that takes the quotation mark for the end of the quotation. -/
def noteFailed : Scan :=
  { remindTyped noteField "/remind --note \"a\"b\"" (.endQuoted .double) "a" 15 with
    state := .failed ⟨.unexpectedCharacter 'b', 18⟩, cursor := 18 }

theorem parse_note :
    (remindSession noteField).parse (.offline Id) "/remind --note \"a\\\"b\"" .autocomplete =
      pure (.ok noteTyped) :=
  parse_remind "--note" (matchCommand_remind (by rfl)) (by rfl)

theorem parse_note_execute :
    (remindSession noteField).parse (.offline Id) "/remind --note \"a\"b\"" .execute =
      pure (.ok noteFailed) :=
  parse_remind "--note" (matchCommand_remind (by rfl)) (by rfl)

/-- A text with an escaped quotation mark is echoed between quotation marks without the escape, and
the command that is completed cannot be read. -/
theorem parse_quoted_note :
    let s := remindSession noteField
    let suggested := ((s.suggest (.offline Id) "/remind --note \"a\\\"b\"").run .empty).run
    Binding.treeDefect? s.bindings = none ∧
    ∃ o ∈ suggested.1, o.source = .literal "a\"b" ∧
      ∃ read, ((s.parse (.offline Id) ("/" ++ o.complete) .execute).run suggested.2).run.1 =
          .ok read ∧ read.error? = some ⟨.unexpectedCharacter 'b', 18⟩ := by
  intro s suggested
  have hsuggest : suggested = ((s.offers (.offline Id) noteTyped).run, .empty) := by
    show ((s.suggest (.offline Id) "/remind --note \"a\\\"b\"").run .empty).run = _
    rw [suggest_of_parse parse_note rfl]
    rfl
  rw [hsuggest]
  refine ⟨treeDefect?_remindSession (by decide), _, List.mem_cons_self, rfl, noteFailed, ?_, rfl⟩
  show ((s.parse (.offline Id) "/remind --note \"a\"b\"" .execute).run .empty).run.1 = _
  rw [parse_note_execute]
  rfl

/-! ## Where it is accepted -/

/-- **Values that are suggested are stored.**  Where a command is typed at a leaf and comes to a
value of a field, the command that a suggestion completes is executed without error and has the
suggested value for the field, as the last element of the list if one is open.  For an option it
must be possible to read it as it is in its place; for a text that is echoed from between quotation
marks there must be nothing in it that had to be escaped. -/
theorem parse_of_value_suggestion (hcache : cache.WellFormed)
    (htyped : s.TypedAtLeaf backend text cache cache' form scan)
    (ho : o ∈ ((s.suggest backend text).run cache).run.1)
    (hfield : scan.awaitedField? = some field) :
    (∀ option, o.source = .staticOption option → option ∈ field.options ∧
      (Scan.Storable form (s.typedFrom text form) scan field option.value →
        ∃ read, ((s.parse backend (completedBy scan o) .execute).run cache').run.1 = .ok read ∧
          Stores scan field option.value read)) ∧
    (∀ shown, o.source = .literal shown → field.type = .text → o.suggestion = shown ∧
      ((scan.state.quote? = some .double → ∀ c ∈ shown.toList, c ≠ '"' ∧ c ≠ '\\') →
        ∃ read, ((s.parse backend (completedBy scan o) .execute).run cache').run.1 = .ok read ∧
          Stores scan field shown read)) := by
  obtain ⟨pre, hslash⟩ := htyped.readAtLeaf.exists_slash hcache
  have hfound (hvalue : o.isValue = true) :
      ∃ found, scan.Offered found ∧ found.isValue = true ∧ o = scan.splice found := by
    obtain ⟨scan', found, hparse, -, hoffered, hvalue', rfl⟩ :=
      exists_offered_of_mem_suggest ho hvalue
    rw [htyped.parses] at hparse
    cases hparse
    exact ⟨found, hoffered, hvalue', rfl⟩
  refine ⟨fun option hsource => ?_, fun shown hsource htext => ?_⟩
  · obtain ⟨found, hoffered, hvalue, rfl⟩ := hfound (by rw [Suggestion.isValue, hsource])
    rw [scan.source_splice] at hsource
    obtain ⟨hstate, field', hfield', hselect, hmem, hcomplete⟩ := hoffered.option option hsource
    obtain rfl := Option.some.inj (hfield.symm.trans hfield')
    refine ⟨hmem, fun hstorable => ?_⟩
    have htakes := hstorable.takes hstate
    rw [← hcomplete] at htakes
    obtain ⟨c, r, hcons, -⟩ := htakes.exists_cons
    have hchanged := toList_completedBy_splice hslash
      (Suggestion.isParameter_of_isValue hvalue) (hcons ▸ List.cons_ne_nil c r)
    have hstores := htyped.stores_of_takes hcache hfield (by rw [hselect]; decide) htakes hchanged
    rwa [String.ofList_toList] at hstores
  · obtain ⟨found, hoffered, hvalue, rfl⟩ := hfound (by rw [Suggestion.isValue, hsource])
    rw [scan.source_splice] at hsource
    obtain ⟨rfl, hne, hsuggestion, hcomplete⟩ := hoffered.echo shown field hsource hfield htext
    refine ⟨(scan.suggestion_splice found).trans hsuggestion, fun hclean => ?_⟩
    have hne' : found.complete.toList ≠ [] := by
      rw [hcomplete]
      exact scan.echoed_ne_nil hne
    have hchanged := toList_completedBy_splice hslash
      (Suggestion.isParameter_of_isValue hvalue) hne'
    rw [hcomplete] at hchanged
    by_cases hrest : ∃ i, scan.state = .rest i
    · obtain ⟨i, hrest⟩ := hrest
      refine htyped.stores_rest hcache hrest hfield (String.toList_inj.mp ?_)
      have hget : form.fields[i]? = some field := by
        simp only [Scan.awaitedField?, hrest] at hfield
        rwa [Scan.currentField?_eq htyped.hasForm (by rw [hrest]; rfl)] at hfield
      have hechoed : scan.echoed = scan.text.drop scan.tokenStart := by
        rw [← ((htyped.lastToken hcache).rest i field hrest hget).1, Scan.echoed, hrest]
        rfl
      rw [hchanged, changedTo, hechoed, Scan.closing_of_value (by rw [hrest]; rfl), List.append_nil,
        List.take_append_drop, htyped.readAtLeaf.text_eq hcache]
    · have htakes := (htyped.lastToken hcache).echoes field htyped.hasForm hfield hne
        (fun i hi => hrest ⟨i, hi⟩) hclean
      have hstores := htyped.stores_of_takes hcache hfield (by rw [htext]; decide) htakes hchanged
      rwa [String.ofList_toList] at hstores

theorem typedAtLeaf_when :
    (remindSession whenField).TypedAtLeaf (.offline Id) "/remind --when N" .empty .empty
      (remindForm whenField) whenTyped where
  parses := by
    rw [parse_when]
    rfl
  succeeds := rfl
  hasForm := rfl
  leaf := ⟨_, rfl, rfl⟩
  noDefect := by decide
  spellsBools t _ := Scan.not_isAbbreviated (by decide)

/-- A month has a space in its name and is put between ticks, so that it is stored as it is. -/
theorem parse_of_value_suggestion_month :
    let s := remindSession whenField
    let suggested := ((s.suggest (.offline Id) "/remind --when N").run .empty).run
    ∃ o ∈ suggested.1, o.source = .staticOption nextMonth ∧
      o.complete = "remind --when `next month`" ∧
      ∃ read, ((s.parse (.offline Id) (completedBy whenTyped o) .execute).run .empty).run.1 =
          .ok read ∧ Stores whenTyped whenField "next month" read := by
  intro s suggested
  have hoffered : ∃ o ∈ suggested.1, o.source = .staticOption nextMonth ∧
      o.complete = "remind --when `next month`" := by
    show ∃ o ∈ ((s.suggest (.offline Id) "/remind --when N").run .empty).run.1, _
    rw [suggest_of_parse parse_when rfl]
    exact ⟨_, List.mem_cons_of_mem _ List.mem_cons_self, rfl, rfl⟩
  obtain ⟨o, ho, hsource, hcomplete⟩ := hoffered
  refine ⟨o, ho, hsource, hcomplete, ?_⟩
  refine ((parse_of_value_suggestion .empty typedAtLeaf_when ho rfl).1 nextMonth hsource).2 ?_
  refine ⟨by decide, nofun, ?_, nofun, nofun, fun _ => nofun⟩
  rintro q hq
  cases hq
  unfold Scan.Carries
  decide

end Session

end SlashCommand
