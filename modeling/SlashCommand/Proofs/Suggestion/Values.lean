import SlashCommand.Proofs.Scan.LastToken
import SlashCommand.Proofs.Suggestion.Sources
import Mathlib.Data.Option.Basic

/-!
# The values that are suggested

While the value of a field is typed, the static options of the field are suggested, or the text that
is typed is echoed.  `Session.exists_offered_of_mem_suggest` says what such a suggestion puts in the
place of the last token: the option between marks, or the token between the marks that it is typed
in.

An option can have any text for its value, but it is put between marks without escaping anything,
and between none at all unless it has a space or a tab in it.  `Scan.Storable` is what a value must
be to be read again as it is, and with it the option is accepted in the place of the last token
(`Scan.Storable.takes`).
-/

namespace SlashCommand

/-- The suggestion is a static option, or a text or truth value that is typed. -/
def Suggestion.isValue (o : Suggestion) : Bool :=
  match o.source with
  | .staticOption _ => true
  | .literal _ => true
  | _ => false

/-- The suggestion completes the parameter under the cursor. -/
def Suggestion.isParameter (o : Suggestion) : Bool :=
  match o.source with
  | .flag _ | .user .. | .channel .. | .staticOption _ | .dynamicOption _ | .literal _ => true
  | .command _ | .execute | .placeholder | .error _ => false

theorem Suggestion.isParameter_of_isValue {o : Suggestion} (h : o.isValue = true) :
    o.isParameter = true := by
  unfold Suggestion.isValue at h
  unfold Suggestion.isParameter
  split at h
  · rename_i hsource
    rw [hsource]
  · rename_i hsource
    rw [hsource]
  · cases h

theorem Suggestion.isError_of_isParameter {o : Suggestion} (h : o.isParameter = true) :
    o.isError = false := by
  cases hsource : o.source with
  | error message =>
    rw [isParameter, hsource] at h
    cases h
  | command | flag | user | channel | staticOption | dynamicOption | literal | execute |
      placeholder =>
    rw [isError, hsource]

namespace Scan

variable {form : Form} {field : Field} {a s : Scan} {value : String}

/-! ## Between marks -/

/-- The marks that a value is put between: those that are typed already, or ticks if it has a space
or a tab in it. -/
def enclosingMark (quote : Option Quote) (value : String) : Option Quote :=
  quote.or (if value.toList.any fun c => c == ' ' || c == '\t' then some .tick else none)

theorem enclose_of_some {quote : Option Quote} {q : Quote} (h : enclosingMark quote value = some q) :
    (enclose quote value).toList = q.char :: (value.toList ++ [q.char]) := by
  have henclose : enclose quote value = q.char.toString ++ value ++ q.char.toString := by
    rw [enclosingMark] at h
    simp only [enclose, h]
  rw [henclose]
  simp

theorem enclose_of_none {quote : Option Quote} (h : enclosingMark quote value = none) :
    enclose quote value = value := by
  rw [enclosingMark] at h
  simp only [enclose, h]

/-- A text between these marks is read as it is. -/
def Carries (q : Quote) (text : List Char) : Prop :=
  ∀ c ∈ text, c ≠ q.char ∧ (q = .double → c ≠ '\\')

theorem Carries.quotedText {q : Quote} {text : List Char} (h : Carries q text) :
    QuotedText q text text :=
  quotedText_self fun c hc => ⟨(h c hc).1, fun hescape => (h c hc).2 hescape.2 hescape.1⟩

/-- The value is read as it is in the place of the last token. -/
structure Storable (form : Form) (a s : Scan) (field : Field) (value : String) : Prop where
  nonempty : value ≠ ""
  /-- Behind an element of a list there is a comma first. -/
  place : ∀ i, s.state ≠ .list i .separator
  quoted : ∀ q, enclosingMark s.state.quote? value = some q → Carries q value.toList
  /-- Without marks a value has no blanks, and begins neither a quotation, a list nor a flag. -/
  bare : enclosingMark s.state.quote? value = none → s.state.isListElement = false →
    IsWord value.toList ∧ ∀ c ∈ value.toList.head?, BeginsBare field c ∧
      (IsMark form a s.tokenStart c → s.text[s.tokenStart]? = some c)
  element : enclosingMark s.state.quote? value = none → s.state.isListElement = true →
    ∀ c ∈ value.toList, IsElementChar c
  /-- A truth value is not given to a boolean field that was left out before. -/
  truth : Passes form a s.tokenStart (AwaitsTruth form) → value = "true" ∨ value = "false" →
    acceptsBool .autocomplete s.token = true

theorem spells_of_value {text token : List Char} (hstate : AwaitsToken s.state)
    (hlist : s.state.isListElement = false) (h : TokenText field text token) :
    s.Spells field text token := by
  unfold Spells
  rcases hstate.cases with hs | ⟨i, stage, hs⟩ | ⟨i, stage, hs⟩
  · rw [hs]
    exact h
  · rw [hs]
    exact h
  · rw [hs] at hlist
    cases hlist

theorem spells_of_element {text token : List Char} (hplace : ∀ i, s.state ≠ .list i .separator)
    (hlist : s.state.isListElement = true) (h : ElementText text token) :
    s.Spells field text token := by
  unfold Spells
  cases hs : s.state with
  | list i stage =>
    cases stage with
    | separator => exact absurd hs (hplace i)
    | start | next | elementStart | bare | quoted | elementEnd => exact h
  | startParameter | value | start | command | endCommand | commandSeparator | parameterSeparator |
      flagDash | flagName | listEnd | rest | failed =>
    rw [hs] at hlist
    cases hlist

/-- A text without marks around it is accepted as it is, if it has neither blanks nor a beginning
with a meaning of its own, and in a list nothing that ends an element. -/
theorem takes_bare {text : List Char} (hstate : AwaitsToken s.state)
    (hplace : ∀ i, s.state ≠ .list i .separator) (hne : text ≠ [])
    (hbare : s.state.isListElement = false → IsWord text ∧ ∀ c ∈ text.head?, BeginsBare field c ∧
      (IsMark form a s.tokenStart c → s.text[s.tokenStart]? = some c))
    (helement : s.state.isListElement = true → ∀ c ∈ text, IsElementChar c)
    (htruth : Passes form a s.tokenStart (AwaitsTruth form) →
      String.ofList text = "true" ∨ String.ofList text = "false" →
        acceptsBool .autocomplete s.token = true) : Takes form a s field text text := by
  refine ⟨?_, fun hlist c hc hc' => ((hbare hlist).2 c hc).2 hc', htruth⟩
  cases hlist : s.state.isListElement with
  | false =>
    obtain ⟨hword, hbegin⟩ := hbare hlist
    obtain ⟨c, w, rfl⟩ := List.exists_cons_of_ne_nil hne
    exact spells_of_value hstate hlist
      (.bare (hbegin c rfl).1 fun d hd => hword d (List.mem_cons_of_mem c hd))
  | true => exact spells_of_element hplace hlist (.bare hne (helement hlist))

/-- A value that can be read as it is, is accepted between its marks. -/
theorem Storable.takes (h : Storable form a s field value) (hstate : AwaitsToken s.state) :
    Takes form a s field (enclose s.state.quote? value).toList value.toList := by
  have hne : value.toList ≠ [] := fun hnil => h.nonempty (String.toList_eq_nil_iff.mp hnil)
  have htruth : Passes form a s.tokenStart (AwaitsTruth form) →
      String.ofList value.toList = "true" ∨ String.ofList value.toList = "false" →
      acceptsBool .autocomplete s.token = true := by
    rw [String.ofList_toList]
    exact h.truth
  cases hmark : enclosingMark s.state.quote? value with
  | some q =>
    rw [enclose_of_some hmark]
    have hquotation : Quotation (q.char :: (value.toList ++ [q.char])) value.toList :=
      .mk hne (h.quoted q hmark).quotedText
    refine ⟨?_, fun _ c hc hc' => ?_, htruth⟩
    · cases hlist : s.state.isListElement with
      | false => exact spells_of_value hstate hlist (.quoted hquotation)
      | true => exact spells_of_element h.place hlist (.quoted hquotation)
    · obtain rfl := Option.some.inj hc
      exact absurd hc' (not_isMark_quote q)
  | none =>
    rw [enclose_of_none hmark]
    exact takes_bare hstate h.place hne (h.bare hmark) (h.element hmark) htruth

/-! ## What is suggested -/

/-- What a suggestion of a static option or of the text that is typed puts in the place of the last
token. -/
structure Offered (s : Scan) (o : Suggestion) : Prop where
  option : ∀ option, o.source = .staticOption option → AwaitsToken s.state ∧
    ∃ field, s.awaitedField? = some field ∧ field.type = .staticSelect ∧ option ∈ field.options ∧
      o.complete = enclose s.state.quote? option.value
  echo : ∀ shown field, o.source = .literal shown → s.awaitedField? = some field →
    field.type = .text →
      shown = s.token ∧ s.token ≠ "" ∧ o.suggestion = shown ∧ o.complete.toList = s.echoed

variable {o : Suggestion}

/-- Suggestions from other sources are not concerned. -/
theorem Offered.of_isValue (h : o.isValue = false) : Offered s o := by
  refine ⟨fun option hoption => ?_, fun shown _ hecho => ?_⟩
  · rw [Suggestion.isValue, hoption] at h
    cases h
  · rw [Suggestion.isValue, hecho] at h
    cases h

/-- The token is echoed between the marks that it is typed in. -/
theorem offered_echo : Offered s (s.echo s.state.quote?) := by
  unfold echo
  dsimp only
  split
  · exact .of_isValue rfl
  · rename_i hne
    refine ⟨fun _ hsource => SuggestionSource.noConfusion hsource,
      fun shown _ hsource _ _ => ?_⟩
    have hshown : s.token = shown := by injection hsource
    refine ⟨hshown.symm, by simpa using hne, hshown, ?_⟩
    unfold echoed
    cases s.state.quote? with
    | some q => simp
    | none => rfl

/-- To execute a command is no parameter. -/
theorem isParameter_of_offerExecution? (h : s.offerExecution? = some o) :
    o.isParameter = false := by
  rw [Suggestion.isParameter, source_of_offerExecution? h]

theorem source_splice (s : Scan) (o : Suggestion) : (s.splice o).source = o.source := by
  unfold splice
  split
  · rfl
  · rfl

theorem suggestion_splice (s : Scan) (o : Suggestion) : (s.splice o).suggestion = o.suggestion := by
  unfold splice
  split
  · rfl
  · rfl

/-- A suggestion takes the place of the last token; the command loses its slash. -/
theorem complete_splice {pre : List Char} (hslash : s.text.take s.tokenStart = '/' :: pre)
    (hparameter : o.isParameter = true) (hne : o.complete.toList ≠ []) :
    '/' :: (s.splice o).complete.toList = s.text.take s.tokenStart ++ o.complete.toList := by
  have herror : ¬ o.isError = true := by
    rw [Suggestion.isError_of_isParameter hparameter]
    exact Bool.false_ne_true
  have hempty : ¬ (o.complete == "") = true := by
    intro hempty
    rw [beq_iff_eq.mp hempty] at hne
    exact hne rfl
  rw [splice, if_neg herror]
  dsimp only
  rw [if_neg hempty, Text.dropLeading, textBefore, String.toList_append, String.toList_ofList, hslash]
  simp

/-- With nothing to complete, what is shown takes the place of the last token and of the character in
front of it. -/
theorem complete_splice_of_empty {pre : List Char}
    (hslash : s.text.take (s.tokenStart - 1) = '/' :: pre) (hparameter : o.isParameter = true)
    (hempty : o.complete = "") :
    '/' :: (s.splice o).complete.toList =
      s.text.take (s.tokenStart - 1) ++ o.suggestion.toList := by
  have herror : ¬ o.isError = true := by
    rw [Suggestion.isError_of_isParameter hparameter]
    exact Bool.false_ne_true
  rw [splice, if_neg herror]
  dsimp only
  rw [if_pos (beq_iff_eq.mpr hempty), Text.dropLeading, textBefore, String.toList_append,
    String.toList_ofList, hslash]
  simp

end Scan

namespace Session

variable {s : Session} {backend : Backend Id} {scan : Scan} {form : Form} {field : Field}

/-- A value of the field that is awaited is such a suggestion. -/
theorem OffersValue.offered {o : Suggestion} (hstate : Scan.AwaitsToken scan.state)
    (hfield : scan.awaitedField? = some field)
    (h : OffersValue s backend scan field scan.state.quote? o) : scan.Offered o := by
  cases h with
  | echo _ hecho =>
    rw [hecho]
    exact Scan.offered_echo
  | @truth literal htype hsource =>
    -- truth values are no echoes of a text
    refine ⟨fun option hoption => ?_, fun shown f _ hf htext => ?_⟩
    · rw [hsource] at hoption
      cases hoption
    · obtain rfl := Option.some.inj (hfield.symm.trans hf)
      rw [htype] at htext
      cases htext
  | option option htype hoption hsource hcomplete =>
    refine ⟨fun option' hsource' => ?_, fun shown _ hecho => ?_⟩
    · obtain rfl : option = option' := by injection hsource.symm.trans hsource'
      exact ⟨hstate, field, hfield, htype, hoption, hcomplete⟩
    · rw [hsource] at hecho
      cases hecho
  | note hsource =>
    refine .of_isValue ?_
    rcases hsource with hsource | ⟨message, hsource⟩
    · rw [Suggestion.isValue, hsource]
    · rw [Suggestion.isValue, hsource]
  | lookedUp _ hsource | user _ _ _ _ _ _ hsource | channel _ _ _ _ _ _ hsource =>
    exact .of_isValue (by rw [Suggestion.isValue, hsource])

theorem ParameterOffer.offered {o : Suggestion} (h : ParameterOffer s backend scan form o) :
    scan.Offered o := by
  cases h with
  | flag _ hflag =>
    obtain ⟨f, -, rfl⟩ := List.mem_map.mp hflag
    exact .of_isValue rfl
  | rest hrest =>
    rw [hrest]
    exact Scan.offered_echo
  | value field hfield hstate hvalue => exact (offersValue_of_mem hvalue).offered hstate hfield

/-- A suggestion that completes the parameter under the cursor is offered for the scan of the text
and put into the text. -/
theorem exists_parameterOffer_of_mem_suggest {cache : FormCache} {text : String} {o : Suggestion}
    (ho : o ∈ ((s.suggest backend text).run cache).run.1) (hparameter : o.isParameter = true) :
    ∃ scan form found, ((s.parse backend text .autocomplete).run cache).run.1 = .ok scan ∧
      scan.error? = none ∧ scan.form = some form ∧ ParameterOffer s backend scan form found ∧
      found.isParameter = true ∧ o = scan.splice found := by
  obtain ⟨scan, hparse, hscan, hoffers⟩ :=
    mem_offers_of_mem_suggest ho (Suggestion.isError_of_isParameter hparameter)
  rcases mem_offers hoffers with hoffer | ⟨found, hmem, rfl⟩
  · rw [Scan.isParameter_of_offerExecution? hoffer] at hparameter
    cases hparameter
  · rw [Suggestion.isParameter, scan.source_splice, ← Suggestion.isParameter] at hparameter
    rcases mem_completions hmem with rfl | hcommand | ⟨form, hform, hparameters⟩
    · cases hparameter
    · obtain ⟨b, -, rfl⟩ := List.mem_map.mp hcommand
      cases hparameter
    · exact ⟨scan, form, found, hparse, hscan, hform, mem_offerParameters hform hparameters,
        hparameter, rfl⟩

/-- **Values that are suggested.**  A static option or an echo among the suggestions for a text is
offered for the scan of the text, and is put into the text in the place of the last token. -/
theorem exists_offered_of_mem_suggest {cache : FormCache} {text : String} {o : Suggestion}
    (ho : o ∈ ((s.suggest backend text).run cache).run.1) (hvalue : o.isValue = true) :
    ∃ scan found, ((s.parse backend text .autocomplete).run cache).run.1 = .ok scan ∧
      scan.error? = none ∧ scan.Offered found ∧ found.isValue = true ∧ o = scan.splice found := by
  obtain ⟨scan, form, found, hparse, hscan, hform, hoffer, -, rfl⟩ :=
    exists_parameterOffer_of_mem_suggest ho (Suggestion.isParameter_of_isValue hvalue)
  rw [Suggestion.isValue, scan.source_splice, ← Suggestion.isValue] at hvalue
  exact ⟨scan, found, hparse, hscan, hoffer.offered, hvalue, rfl⟩

end Session

end SlashCommand
