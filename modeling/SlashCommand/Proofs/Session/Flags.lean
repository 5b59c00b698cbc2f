import SlashCommand.Proofs.Scan.TypedFlags
import SlashCommand.Proofs.Session.Leaves
import SlashCommand.Proofs.Suggestion.Offers

/-!
# Flags that are suggested

A flag is suggested by its name, and the suggestion brings the dashes that are not typed yet.  How
many these are is counted in the text in front of the token, and not taken from the scan; the two
agree because a flag begins behind a blank, or where the parameters begin (`Scan.EndsInFlag`).  So
the command that is completed has the flag with two dashes, and the scan for typing comes to it with
the values that it had (`parse_of_flag_suggestion`).

There is one flag that is not completed like this.  If a field has the empty text for its label and
both dashes are typed, nothing is left to complete, and a suggestion with nothing to complete takes
the place of one character more (`suggest_unnamed`).
-/

namespace SlashCommand

/-- The text behind the name of a flag: a field that takes lists gets its bracket. -/
def Field.opening (f : Field) : List Char := if f.multiselect then [' ', '['] else []

namespace Scan

variable {form : Form} {field : Field} {scan : Scan} {o : Suggestion} {pre dashes before : List Char}

/-- The command with the flag of the field behind `pre`. -/
def flagCommand (pre : List Char) (field : Field) : List Char :=
  pre ++ '-' :: '-' :: (field.flagName.toList ++ field.opening)

/-- Both dashes are typed, and nothing comes behind them. -/
structure NothingLeft (dashes : List Char) (field : Field) : Prop where
  dashes : dashes = ['-', '-']
  unnamed : field.flagName = ""
  single : field.multiselect = false

/-! ## The offer -/

/-- The flag of the field is offered, with the dashes that are missing in the text. -/
structure OffersFlag (scan : Scan) (field : Field) (o : Suggestion) : Prop where
  writable : field.readonly = false
  isFree : field.name ∉ scan.values
  source : o.source = .flag field.name
  suggestion : o.suggestion = "--" ++ field.flagName
  complete : o.complete.toList =
    List.replicate (2 - scan.typedDashes) '-' ++ (field.flagName.toList ++ field.opening)

theorem exists_offersFlag (ho : o ∈ scan.offerFlags form) :
    ∃ field ∈ form.fields, scan.OffersFlag field o := by
  obtain ⟨field, hfield, rfl⟩ := List.mem_map.mp ho
  obtain ⟨hmem, hkept⟩ := List.mem_filter.mp hfield
  simp only [Bool.and_eq_true, Bool.not_eq_true'] at hkept
  obtain ⟨⟨hreadonly, hfree⟩, -⟩ := hkept
  refine ⟨field, hmem, hreadonly, ?_, rfl, rfl, ?_⟩
  · intro hvalue
    rw [Std.ExtTreeMap.contains_iff_mem.mpr hvalue] at hfree
    cases hfree
  · unfold Field.opening
    cases field.multiselect with
    | true => simp [List.append_assoc]
    | false => simp

theorem OffersFlag.isParameter (h : scan.OffersFlag field o) : o.isParameter = true := by
  rw [Suggestion.isParameter, h.source]

/-- The dashes that are typed and those that are completed are two. -/
theorem EndsInFlag.append_missing (h : EndsInFlag scan pre dashes) :
    dashes ++ List.replicate (2 - scan.typedDashes) '-' = ['-', '-'] := by
  rw [h.typedDashes]
  rcases h.dashes with ⟨-, rfl, -⟩ | ⟨-, rfl | ⟨rfl, -⟩⟩
  · rfl
  · rfl
  · rfl

/-- Put into the text, the offer completes the flag with two dashes. -/
theorem EndsInFlag.complete_splice (h : EndsInFlag scan pre dashes)
    (hslash : scan.text.take scan.tokenStart = '/' :: before) (ho : scan.OffersFlag field o)
    (hleft : ¬ NothingLeft dashes field) :
    '/' :: (scan.splice o).complete.toList = flagCommand pre field := by
  have hne : o.complete.toList ≠ [] := by
    intro hnil
    rw [ho.complete] at hnil
    obtain ⟨hmissing, hrest⟩ := List.append_eq_nil_iff.mp hnil
    obtain ⟨hname, hopening⟩ := List.append_eq_nil_iff.mp hrest
    have hdashes := h.append_missing
    rw [hmissing, List.append_nil] at hdashes
    refine hleft ⟨hdashes, String.toList_eq_nil_iff.mp hname, ?_⟩
    cases hmulti : field.multiselect with
    | false => rfl
    | true =>
      rw [Field.opening, hmulti] at hopening
      cases hopening
  calc '/' :: (scan.splice o).complete.toList
      = scan.text.take scan.tokenStart ++ o.complete.toList :=
        Scan.complete_splice hslash ho.isParameter hne
    _ = pre ++ ((dashes ++ List.replicate (2 - scan.typedDashes) '-') ++
          (field.flagName.toList ++ field.opening)) := by
        rw [h.take_tokenStart, ho.complete]
        simp only [List.append_assoc]
    _ = flagCommand pre field := by
        rw [h.append_missing]
        rfl

/-- With nothing left to complete, the second dash is taken away and two more come in its place. -/
theorem EndsInFlag.complete_splice_nothing (h : EndsInFlag scan pre dashes)
    (hslash : scan.text.take scan.tokenStart = '/' :: before) (ho : scan.OffersFlag field o)
    (hleft : NothingLeft dashes field) :
    '/' :: (scan.splice o).complete.toList = pre ++ ['-', '-', '-'] := by
  obtain ⟨rfl, hname, hsingle⟩ := hleft
  have hempty : o.complete = "" := by
    have hcomplete := ho.complete
    rw [h.typedDashes, hname, Field.opening, hsingle] at hcomplete
    exact String.toList_eq_nil_iff.mp hcomplete
  have htake : scan.text.take (scan.tokenStart - 1) = pre ++ ['-'] := by
    rw [h.tokenStart_eq, h.text_eq]
    exact List.take_length_add_append 1
  obtain ⟨rest, hrest⟩ : ∃ rest, pre ++ ['-'] = '/' :: rest := by
    obtain ⟨c, hlast, -⟩ := h.apart
    rw [h.take_tokenStart] at hslash
    cases pre with
    | nil => cases hlast
    | cons d pre => exact ⟨_, by rw [(List.cons.inj hslash).1]; rfl⟩
  rw [Scan.complete_splice_of_empty (htake.trans hrest) ho.isParameter hempty, htake,
    ho.suggestion, hname]
  simp

end Scan

namespace Session

variable {s : Session} {backend : Backend Id} {cache cache' : FormCache} {text changed : String}
  {scan : Scan} {form : Form} {field : Field} {o : Suggestion} {name : String}
  {pre dashes more : List Char}

/-! ## The completed command -/

/-- While it is typed, the command comes to the flag of the field as `scan` has come to its own: to
the name, with a blank behind it to the value, and where the field takes lists to the first element
of one.  The parameters in front of the flag are read as before. -/
structure SelectsFlag (s : Session) (backend : Backend Id) (cache : FormCache) (form : Form)
    (scan : Scan) (field : Field) (command : String) : Prop where
  name : field.multiselect = false →
    ∃ read, ((s.parse backend command .autocomplete).run cache).run.1 = .ok read ∧
      Scan.Stands .flagName scan.positionals scan.values [] read ∧ read.token = field.flagName
  value : field.multiselect = false →
    ∃ read i, ((s.parse backend (command ++ " ") .autocomplete).run cache).run.1 = .ok read ∧
      form.fields[i]? = some field ∧
      Scan.Stands (.value i (.separator false)) scan.positionals scan.values [] read
  list : field.multiselect = true →
    ∃ read i, ((s.parse backend command .autocomplete).run cache).run.1 = .ok read ∧
      form.fields[i]? = some field ∧
      Scan.Stands (.list i .start) scan.positionals (scan.values.insert field.name (.list [])) []
        read

/-- Whatever flag is typed behind `pre`, the command is read up to its dashes as the text of `scan`
was read. -/
def TakesFlags (s : Session) (backend : Backend Id) (cache : FormCache) (form : Form) (scan : Scan)
    (pre : List Char) : Prop :=
  ∀ changed more, changed.toList = pre ++ '-' :: more →
    ∃ q, Scan.Stands .startParameter scan.positionals scan.values ('-' :: more) q ∧
      ((s.parse backend changed .autocomplete).run cache).run.1 =
        .ok (Scan.readForm form .autocomplete q)

/-- Where the text ends in a flag, or in front of one, another flag can be typed in its place. -/
theorem ReadAtLeaf.exists_takesFlags (h : ReadAtLeaf s backend text cache cache' form scan)
    (hcache : cache.WellFormed) (hstate : scan.state = .startParameter ∨ scan.state = .flagName) :
    ∃ pre dashes, scan.EndsInFlag pre dashes ∧ s.TakesFlags backend cache' form scan pre := by
  obtain ⟨b, hb, -, hfailed⟩ := h.exists_leaf hcache
  obtain ⟨htext, hreading, hspans⟩ := Scan.spans_matchBinding form hfailed
  have hapart := Scan.endsApart_matchBinding hb
  rw [← h.readForm_eq hcache] at hstate
  obtain ⟨pre, dashes, hends, hle, hleads⟩ :=
    Scan.exists_endsInFlag (a := s.typedFrom text form) hreading hspans rfl (htext ▸ hapart) hstate
  rw [h.readForm_eq hcache] at hends hleads
  have hsplit : text.toList = pre ++ (dashes ++ scan.token.toList) :=
    (h.text_eq hcache).symm.trans hends.text_eq
  refine ⟨pre, dashes, hends, fun changed more hchanged => ?_⟩
  obtain ⟨q, hq, hread⟩ := hleads more
  refine ⟨q, hq, ?_⟩
  rw [← hread, ← hchanged]
  exact h.parse_changedBehind hcache hsplit hchanged (by decide) hle

/-- The command with the flag of a field in this place selects the field. -/
theorem TakesFlags.selectsFlag (h : s.TakesFlags backend cache form scan pre)
    (hform : form.defect? = none) (hfield : field ∈ form.fields)
    (hname : ∀ c ∈ field.flagName.toList, IsNameChar c)
    (hchanged : changed.toList = Scan.flagCommand pre field) :
    s.SelectsFlag backend cache form scan field changed := by
  have hflag : form.flag? field.flagName.toList = some field := Form.flag?_of_mem hform hfield
  have hclosed (hsingle : field.multiselect = false) :
      changed.toList = pre ++ '-' :: '-' :: field.flagName.toList := by
    rw [hchanged, Scan.flagCommand, Field.opening, hsingle, if_neg Bool.false_ne_true,
      List.append_nil]
  refine ⟨fun hsingle => ?_, fun hsingle => ?_, fun hmulti => ?_⟩
  · obtain ⟨q, hq, hread⟩ := h changed _ (hclosed hsingle)
    obtain ⟨hstands, htoken⟩ := Scan.readForm_flag_nil hname hq
    exact ⟨_, hread, hstands, htoken.trans String.ofList_toList⟩
  · have hblank : (changed ++ " ").toList = pre ++ '-' :: '-' :: (field.flagName.toList ++ [' ']) := by
      rw [String.toList_append, hclosed hsingle]
      simp
    obtain ⟨q, hq, hread⟩ := h (changed ++ " ") _ hblank
    obtain ⟨i, hget, hstands⟩ := Scan.readForm_flag_separator hname hflag hq
    exact ⟨_, i, hread, hget, hstands⟩
  · rw [Scan.flagCommand, Field.opening, if_pos hmulti] at hchanged
    obtain ⟨q, hq, hread⟩ := h changed _ hchanged
    obtain ⟨i, hget, hstands⟩ := Scan.readForm_flag_bracket hname hflag hmulti hq
    exact ⟨_, i, hread, hget, hstands⟩

/-! ## A flag without a name -/

/-- A field whose label is the empty text. -/
def unnamedField : Field where
  name := "x"
  label := some ""

/-- The scan of the command up to its binding, with a word behind it that is still typed. -/
def wordTyped (field : Field) (command word : String) : Scan :=
  { remindScan field command word with state := .command }

/-- The scan of a flag that is typed. -/
def flagTyped (field : Field) (command token : String) (tokenStart : Nat) : Scan where
  state := .flagName
  text := command.toList
  cursor := command.length
  token := token
  tokenStart := tokenStart
  location := "/remind"
  binding := (remindSession field).bindings.head?
  form := some (remindForm field)

theorem parse_wordTyped (word : String) {command : String} {read : Scan}
    (hmatch : (Scan.runWithin (Scan.descentStep .autocomplete) 60
      { Scan.ofText command with candidates := (remindSession field).bindings }).map Prod.snd =
        some (wordTyped field command word))
    (hread : (Scan.runWithin (Scan.parameterStep (remindForm field) .autocomplete) 60
      ((wordTyped field command word).withForm (remindForm field)).rewind).map Prod.snd =
        some read) :
    (remindSession field).parse backend command .autocomplete = pure (.ok read) :=
  have hmatched : (remindSession field).matchCommand command .autocomplete =
      wordTyped field command word :=
    matchCommand_of_runWithin 60 _ (List.cons_ne_nil _ _) hmatch
  parse_of_inline hmatched rfl (Scan.parseForm_of_runWithin 60 read rfl hread)

theorem readAtLeaf_remind {command token : String} {tokenStart : Nat}
    (h : (remindSession field).parse backend command .autocomplete =
      pure (.ok (flagTyped field command token tokenStart))) :
    (remindSession field).ReadAtLeaf backend command .empty .empty (remindForm field)
      (flagTyped field command token tokenStart) where
  parses := by
    rw [h]
    rfl
  succeeds := rfl
  hasForm := rfl
  leaf := ⟨_, rfl, rfl⟩

theorem parse_unnamed :
    (remindSession unnamedField).parse (.offline Id) "/remind --" .autocomplete =
      pure (.ok (flagTyped unnamedField "/remind --" "" 10)) :=
  parse_wordTyped "--" (by rfl) (by rfl)

/-- The suggestion of a flag without a name brings a third dash. -/
theorem suggest_unnamed :
    let s := remindSession unnamedField
    let scan := flagTyped unnamedField "/remind --" "" 10
    let pre := "/remind ".toList
    Binding.treeDefect? s.bindings = none ∧
    (∀ c ∈ unnamedField.flagName.toList, IsNameChar c) ∧
    s.ReadAtLeaf (.offline Id) "/remind --" .empty .empty (remindForm unnamedField) scan ∧
    scan.EndsInFlag pre ['-', '-'] ∧
    ∃ o ∈ ((s.suggest (.offline Id) "/remind --").run .empty).run.1,
      o.source = .flag unnamedField.name ∧
      Scan.flagCommand pre unnamedField = "/remind --".toList ∧ o.complete = "remind ---" := by
  intro s scan pre
  have hends : scan.EndsInFlag pre ['-', '-'] :=
    ⟨⟨' ', rfl, by decide⟩, rfl, rfl, .inr ⟨rfl, .inl rfl⟩⟩
  refine ⟨treeDefect?_remindSession (by decide), by decide, readAtLeaf_remind parse_unnamed, hends,
    ?_⟩
  show ∃ o ∈ ((s.suggest (.offline Id) "/remind --").run .empty).run.1, _
  rw [suggest_of_parse parse_unnamed rfl]
  exact ⟨_, List.mem_cons_self, rfl, rfl, rfl⟩

/-! ## Where a flag is completed -/

/-- **Flags that are suggested.**  Where a command is typed at a leaf, a flag is suggested for a field
that may be given and has no value yet, and the text ends with its dashes and the beginning of its
name, as far as they are typed.  The suggestion completes the flag with two dashes, and the command
that it completes selects the field, with the parameters in front as they were.  Only where nothing is
left to complete it has three dashes. -/
theorem parse_of_flag_suggestion (hcache : cache.WellFormed)
    (hread : s.ReadAtLeaf backend text cache cache' form scan) (hform : form.defect? = none)
    (hnames : ∀ f ∈ form.fields, ∀ c ∈ f.flagName.toList, IsNameChar c)
    (ho : o ∈ ((s.suggest backend text).run cache).run.1) (hsource : o.source = .flag name) :
    ∃ field ∈ form.fields, field.name = name ∧ field.readonly = false ∧ name ∉ scan.values ∧
      ∃ pre dashes, text.toList = pre ++ (dashes ++ scan.token.toList) ∧
        scan.EndsInFlag pre dashes ∧
        (¬ Scan.NothingLeft dashes field →
          '/' :: o.complete.toList = Scan.flagCommand pre field ∧
            s.SelectsFlag backend cache' form scan field ("/" ++ o.complete)) ∧
        (Scan.NothingLeft dashes field →
          '/' :: o.complete.toList = pre ++ ['-', '-', '-']) := by
  have hparameter : o.isParameter = true := by rw [Suggestion.isParameter, hsource]
  obtain ⟨scan', form', found, hparse, -, hform', hoffer, -, rfl⟩ :=
    exists_parameterOffer_of_mem_suggest ho hparameter
  rw [hread.parses] at hparse
  cases hparse
  obtain rfl : form' = form := Option.some.inj (hform'.symm.trans hread.hasForm)
  rw [scan.source_splice] at hsource
  cases hoffer with
  | rest hrest => exact absurd (hrest ▸ hsource) (scan.source_echo_ne_flag _ name)
  | value field' _ _ hvalue =>
    exact absurd hsource ((valueOffer_of_mem_offerValues hvalue).1.source_ne_flag name)
  | flag hstate hflag =>
    obtain ⟨field, hfield, hoffers⟩ := Scan.exists_offersFlag hflag
    obtain rfl : field.name = name := by
      rw [hoffers.source] at hsource
      exact SuggestionSource.flag.inj hsource
    obtain ⟨before, hslash⟩ := hread.exists_slash hcache
    obtain ⟨pre, dashes, hends, htakes⟩ := hread.exists_takesFlags hcache hstate
    refine ⟨field, hfield, rfl, hoffers.writable, hoffers.isFree, pre, dashes, ?_, hends,
      fun hleft => ?_, hends.complete_splice_nothing hslash hoffers⟩
    · rw [← hread.text_eq hcache]
      exact hends.text_eq
    · have hcomplete := hends.complete_splice hslash hoffers hleft
      have hchanged : ("/" ++ (scan.splice found).complete).toList = Scan.flagCommand pre field := by
        rw [← hcomplete, String.toList_append]
        rfl
      exact ⟨hcomplete, htakes.selectsFlag hform hfield (hnames field hfield) hchanged⟩

theorem parse_daily_flag :
    (remindSession dailyField).parse (.offline Id) "/remind -d" .autocomplete =
      pure (.ok (flagTyped dailyField "/remind -d" "d" 9)) :=
  parse_wordTyped "-d" (by rfl) (by rfl)

/-- Behind one dash the other one is completed. -/
theorem parse_of_flag_suggestion_daily :
    let s := remindSession dailyField
    ∃ o ∈ ((s.suggest (.offline Id) "/remind -d").run .empty).run.1,
      o.source = .flag dailyField.name ∧ o.complete = "remind --daily" ∧
      s.SelectsFlag (.offline Id) .empty (remindForm dailyField)
        (flagTyped dailyField "/remind -d" "d" 9) dailyField ("/" ++ o.complete) := by
  intro s
  have hoffered : ∃ o ∈ ((s.suggest (.offline Id) "/remind -d").run .empty).run.1,
      o.source = .flag dailyField.name ∧ o.complete = "remind --daily" := by
    rw [suggest_of_parse parse_daily_flag rfl]
    exact ⟨_, List.mem_cons_self, rfl, rfl⟩
  obtain ⟨o, ho, hsource, hcomplete⟩ := hoffered
  refine ⟨o, ho, hsource, hcomplete, ?_⟩
  obtain ⟨field, hfield, -, -, -, pre, dashes, -, -, hcompletes, -⟩ :=
    parse_of_flag_suggestion .empty (readAtLeaf_remind parse_daily_flag) (by decide) (by decide)
      ho hsource
  obtain rfl : field = dailyField := List.mem_singleton.mp hfield
  exact (hcompletes fun hleft => absurd hleft.unnamed (by decide)).2

end Session

end SlashCommand
