import SlashCommand.Proofs.Binding.Validation
import SlashCommand.Proofs.Scan.Conformance
import SlashCommand.Session.Basic

/-!
# Writing a command and reading it back

A value can always be written so that it is read back: in double quotes, with a backslash in front
of what would end the quotation or escape another character.  Written as flags behind the path of a
leaf, values for any of its fields make a command that gives exactly these fields exactly these
values.

* `writeCommand`: the command that is written.
* `quotedText_escape`, `valueText_writeValue`, `parametersText_writeParameter`: what is written
  derives, from the characters of a token up to all parameters.
* `spelled_intercalate`: the path is spelled by the labels of its bindings.

What validation is good for here is that labels and flags find what they were written for.  A truth
value may be written with or without quotation marks.
-/

namespace SlashCommand

/-! ## Writing -/

/-- A character between double quotes, behind a backslash if it means something there. -/
def escapeChar (c : Char) : List Char := if c = '\\' ∨ c = '"' then ['\\', c] else [c]

/-- A token in double quotes. -/
def quoteToken (token : String) : String :=
  "\"" ++ String.ofList (token.toList.flatMap escapeChar) ++ "\""

/-- A value in double quotes, or in brackets if it is a list.  A truth value may be left bare. -/
def writeValue (bareBools : Bool) (field : Field) : Value → String
  | .scalar token => if bareBools ∧ field.type = .bool then token else quoteToken token
  | .list tokens => "[" ++ String.intercalate ", " (tokens.map quoteToken) ++ "]"

/-- A value as a flag. -/
def writeParameter (bareBools : Bool) (given : Field × Value) : String :=
  "--" ++ given.1.flagName ++ " " ++ writeValue bareBools given.1 given.2

/-- The command for a path through the tree, with values for fields. -/
def writeCommand (bareBools : Bool) (path : List Binding) (given : List (Field × Value)) : String :=
  "/" ++ String.intercalate " " (path.map Binding.label ++ given.map (writeParameter bareBools))

/-! ## What is written -/

/-- A value that a field can be given: a list of tokens that are not empty, or one such token, which
is a truth value if the field is boolean. -/
inductive Fits (field : Field) : Value → Prop
  | list {tokens : List String} : field.multiselect = true → (∀ t ∈ tokens, t ≠ "") →
      Fits field (.list tokens)
  | scalar {token : String} : field.multiselect = false → token ≠ "" →
      (field.type = .bool → token = "true" ∨ token = "false") → Fits field (.scalar token)

/-- A path from some bindings down to a binding below them. -/
inductive PathTo (leaf : Binding) : List Binding → List Binding → Prop
  | single {bindings : List Binding} : leaf ∈ bindings → PathTo leaf bindings [leaf]
  | cons {b : Binding} {bindings path : List Binding} : b ∈ bindings →
      PathTo leaf b.bindings path → PathTo leaf bindings (b :: path)

variable {form : Form} {field : Field} {values : Values} {bareBools : Bool}

/-- What is escaped stands for itself. -/
theorem quotedText_escape (token : List Char) :
    QuotedText .double (token.flatMap escapeChar) token := by
  induction token with
  | nil => exact .nil
  | cons c token ih =>
    rw [List.flatMap_cons, escapeChar]
    by_cases hc : c = '\\' ∨ c = '"'
    · rw [if_pos hc]
      exact .escaped rfl ih
    · rw [if_neg hc]
      obtain ⟨hbackslash, hquote⟩ := not_or.mp hc
      exact .plain hquote (fun h => hbackslash h.1) ih

theorem escape_ne_nil {token : List Char} (h : token ≠ []) : token.flatMap escapeChar ≠ [] := by
  obtain ⟨c, token, rfl⟩ := List.exists_cons_of_ne_nil h
  rw [List.flatMap_cons, escapeChar]
  by_cases hc : c = '\\' ∨ c = '"'
  · rw [if_pos hc]
    exact List.cons_ne_nil _ _
  · rw [if_neg hc]
    exact List.cons_ne_nil _ _

theorem toList_quoteToken (token : String) :
    (quoteToken token).toList = '"' :: (token.toList.flatMap escapeChar ++ ['"']) := by
  simp [quoteToken]

theorem quotation_quoteToken {token : String} (h : token ≠ "") :
    Quotation (quoteToken token).toList token.toList := by
  rw [toList_quoteToken]
  have hne : token.toList ≠ [] := fun hnil => h (String.toList_eq_nil_iff.mp hnil)
  exact .mk (q := .double) (escape_ne_nil hne) (quotedText_escape token.toList)

/-- The elements of a list are written between commas. -/
theorem elementsText_writeValue {token : String} {tokens : List String}
    (h : ∀ t ∈ token :: tokens, t ≠ "") :
    ElementsText
      ([',', ' '].intercalate ((token :: tokens).map fun t => (quoteToken t).toList) ++ [']'])
      (token :: tokens) := by
  have helement (t : String) (ht : t ≠ "") : ElementText (quoteToken t).toList t.toList :=
    .quoted (quotation_quoteToken ht)
  induction tokens generalizing token with
  | nil =>
    have hlast : ElementsText ((quoteToken token).toList ++ ([] ++ [']']))
        [String.ofList token.toList] :=
      .last (helement token (h token List.mem_cons_self)) nofun
    simpa using hlast
  | cons next tokens ih =>
    have hmore : ElementsText ((quoteToken token).toList ++ ([] ++ ',' :: ([' '] ++ _)))
        (String.ofList token.toList :: next :: tokens) :=
      .more (helement token (h token List.mem_cons_self)) nofun (by decide)
        (ih fun t ht => h t (List.mem_cons_of_mem token ht))
    simpa using hmore

/-- A written value is a value of its field. -/
theorem valueText_writeValue {value : Value} (h : Fits field value) :
    ValueText field (writeValue bareBools field value).toList value := by
  cases h with
  | @list tokens hmulti htokens =>
    have htext : (writeValue bareBools field (.list tokens)).toList =
        '[' :: ([',', ' '].intercalate (tokens.map fun t => (quoteToken t).toList) ++ [']']) := by
      simp [writeValue, Function.comp_def]
    rw [htext]
    cases tokens with
    | nil =>
      have hlist : ListText ([] ++ [']']) [] := .empty nofun
      exact .list hmulti hlist
    | cons token tokens =>
      have hlist : ListText ([] ++ _) (token :: tokens) :=
        .elements nofun (elementsText_writeValue htokens)
      exact .list hmulti hlist
  | @scalar token hmulti hne hbool =>
    have htoken (text : List Char) (h : TokenText field text token.toList) :
        ValueText field text (.scalar token) := by
      have hvalue := ValueText.token h (by simpa using hbool)
      rwa [hmulti, String.ofList_toList] at hvalue
    rw [writeValue]
    by_cases hbare : bareBools = true ∧ field.type = .bool
    · rw [if_pos hbare]
      refine htoken _ ?_
      have hbegins (c : Char) (hc : c = 't' ∨ c = 'f') : BeginsBare field c := by
        rcases hc with rfl | rfl
        · exact ⟨by decide, fun h => absurd h.1 (by decide), by decide⟩
        · exact ⟨by decide, fun h => absurd h.1 (by decide), by decide⟩
      rcases hbool hbare.2 with rfl | rfl
      · exact .bare (hbegins _ (.inl rfl)) (by decide)
      · exact .bare (hbegins _ (.inr rfl)) (by decide)
    · rw [if_neg hbare]
      exact htoken _ (.quoted (quotation_quoteToken hne))

/-- A written value begins with a character that no separator takes. -/
theorem isNameChar_writeValue {value : Value} (h : Fits field value) :
    ∀ c ∈ (writeValue bareBools field value).toList.head?, IsNameChar c := by
  cases h with
  | @list tokens _ _ =>
    have hhead : (writeValue bareBools field (.list tokens)).toList.head? = some '[' := by
      simp [writeValue]
    rw [hhead]
    decide
  | @scalar token _ _ hbool =>
    rw [writeValue]
    by_cases hbare : bareBools = true ∧ field.type = .bool
    · rw [if_pos hbare]
      rcases hbool hbare.2 with rfl | rfl
      · decide
      · decide
    · rw [if_neg hbare, toList_quoteToken, List.head?_cons]
      decide

/-! ## Parameters -/

/-- What a written parameter assigns. -/
def assignmentOf (given : Field × Value) : Assignment := ⟨given.1.name, given.2⟩

variable {given : Field × Value}

theorem toList_writeParameter (bareBools : Bool) (given : Field × Value) :
    (writeParameter bareBools given).toList = ['-', '-'] ++ (given.1.flagName.toList ++
      ([' '] ++ (writeValue bareBools given.1 given.2).toList)) := by
  simp [writeParameter]

/-- A written parameter is a flag with its value. -/
theorem parameterText_writeParameter {k : Nat} (hform : form.defect? = none)
    (hmem : given.1 ∈ form.fields) (hflag : ∀ c ∈ given.1.flagName.toList, IsNameChar c)
    (hfits : Fits given.1 given.2) :
    ParameterText form k (writeParameter bareBools given).toList k (assignmentOf given) := by
  have hfield : form.flag? given.1.flagName.toList = some given.1 := Form.flag?_of_mem hform hmem
  have hseparator : IsSeparator [' '] := ⟨by decide, by decide⟩
  rw [toList_writeParameter]
  exact .flag (.inl rfl) hflag hfield (by decide) hseparator (isNameChar_writeValue hfits)
    (valueText_writeValue hfits)

/-- Words between spaces begin with no blank. -/
theorem startsPlain_intercalate {words : List (List Char)}
    (h : ∀ w ∈ words, ∃ c r, w = c :: r ∧ Text.isBlank c = false) :
    StartsPlain ([' '].intercalate words) := by
  cases words with
  | nil => exact nofun
  | cons w words =>
    obtain ⟨c, r, rfl, hc⟩ := h w List.mem_cons_self
    rw [List.intercalate_cons_cons_left]
    exact startsPlain_cons hc

theorem startsPlain_writeParameter (bareBools : Bool) (given : List (Field × Value)) :
    StartsPlain ([' '].intercalate (given.map fun p => (writeParameter bareBools p).toList)) := by
  refine startsPlain_intercalate ?_
  intro w hw
  obtain ⟨p, -, rfl⟩ := List.mem_map.mp hw
  rw [toList_writeParameter]
  exact ⟨'-', _, rfl, by decide⟩

/-- Written parameters derive, and assign what was written. -/
theorem parametersText_writeParameter {k : Nat} {given : List (Field × Value)}
    (hform : form.defect? = none)
    (hgiven : ∀ p ∈ given, p.1 ∈ form.fields ∧ (∀ c ∈ p.1.flagName.toList, IsNameChar c) ∧
      Fits p.1 p.2) :
    ParametersText form k values
      ([' '].intercalate (given.map fun p => (writeParameter bareBools p).toList))
      (given.map assignmentOf) := by
  induction given generalizing values with
  | nil => exact .none
  | cons p given ih =>
    obtain ⟨hmem, hflag, hfits⟩ := hgiven p List.mem_cons_self
    have hfirst : ParameterText form k (writeParameter bareBools p).toList k (assignmentOf p) :=
      parameterText_writeParameter hform hmem hflag hfits
    have hrest : ParametersText form k (values.insert (assignmentOf p).field (assignmentOf p).value)
        ([' '].intercalate (given.map fun p => (writeParameter bareBools p).toList))
        (given.map assignmentOf) :=
      ih fun q hq => hgiven q (List.mem_cons_of_mem p hq)
    have hplain := startsPlain_writeParameter bareBools given
    cases given with
    | nil =>
      have hlast : ParametersText form k values ((writeParameter bareBools p).toList ++ ([] ++ []))
          [assignmentOf p] := .more hfirst nofun (fun _ => rfl) nofun hrest
      simpa using hlast
    | cons q given =>
      have hmore : ParametersText form k values
          ((writeParameter bareBools p).toList ++ ([' '] ++ [' '].intercalate
            ((q :: given).map fun p => (writeParameter bareBools p).toList)))
          ((p :: q :: given).map assignmentOf) :=
        .more hfirst (by decide) nofun hplain hrest
      rw [List.map_cons, List.map_cons, List.intercalate_cons_cons, List.append_assoc]
      exact hmore

/-! ## The path -/

/-- Words between spaces, with further words behind them, spell the words. -/
theorem spelled_intercalate {words more : List (List Char)}
    (hwords : ∀ w ∈ words, w ≠ [] ∧ IsWord w)
    (hmore : ∀ w ∈ more, ∃ c r, w = c :: r ∧ Text.isBlank c = false) :
    Spelled ([' '].intercalate more) (words.map String.ofList)
      ([' '].intercalate (words ++ more)) := by
  induction words with
  | nil => exact .nil
  | cons w words ih =>
    obtain ⟨-, hblank⟩ := hwords w List.mem_cons_self
    have htail := ih fun v hv => hwords v (List.mem_cons_of_mem w hv)
    have hall : ∀ v ∈ words ++ more, ∃ c r, v = c :: r ∧ Text.isBlank c = false := by
      intro v hv
      rcases List.mem_append.mp hv with hv | hv
      · obtain ⟨hne, hplain⟩ := hwords v (List.mem_cons_of_mem w hv)
        obtain ⟨c, r, rfl⟩ := List.exists_cons_of_ne_nil hne
        exact ⟨c, r, rfl, hplain c List.mem_cons_self⟩
      · exact hmore v hv
    have hplain := startsPlain_intercalate hall
    by_cases hend : words ++ more = []
    · obtain ⟨rfl, rfl⟩ := List.append_eq_nil_iff.mp hend
      have hlast : Spelled [] [String.ofList w] (w ++ ([] ++ [])) :=
        .cons hblank nofun (fun _ => rfl) nofun (fun _ => rfl) .nil
      simpa using hlast
    · have hne : [' '].intercalate (words ++ more) ≠ [] := by
        obtain ⟨v, vs, hv⟩ := List.exists_cons_of_ne_nil hend
        rw [hv] at hall ⊢
        obtain ⟨c, r, rfl, -⟩ := hall v List.mem_cons_self
        rw [List.intercalate_cons_cons_left]
        exact List.cons_ne_nil c _
      have hmore' : Spelled ([' '].intercalate more) (String.ofList w :: words.map String.ofList)
          (w ++ ([' '] ++ [' '].intercalate (words ++ more))) :=
        .cons hblank (by decide) nofun hplain (fun h => absurd h hne) htail
      rw [List.cons_append, List.intercalate_cons_of_ne_nil hend, List.append_assoc]
      exact hmore'

variable {leaf : Binding} {bindings path : List Binding} {labels : List String}

/-- In a tree without a defect the labels of a path lead along it, in any case. -/
theorem isChain_of_lowercase_eq {words : List String} (h : PathTo leaf bindings path)
    (hvalid : Binding.defectBelow? labels [] bindings = none)
    (hwords : words.map Text.lowercase = path.map fun b => Text.lowercase b.label) :
    IsChain bindings words path := by
  have hfind {labels : List String} {bindings : List Binding} {b : Binding} {word : String}
      (hvalid : Binding.defectBelow? labels [] bindings = none) (hmem : b ∈ bindings)
      (hword : Text.lowercase word = Text.lowercase b.label) :
      bindings.find? (fun b => Text.lowercase b.label == Text.lowercase word) = some b := by
    rw [hword]
    exact Binding.find?_label_of_mem hvalid hmem
  induction h generalizing labels words with
  | single hmem =>
    obtain ⟨word, rest, rfl, hword, hnil⟩ := List.map_eq_cons_iff.mp hwords
    exact .cons (hfind hvalid hmem hword) (List.map_eq_nil_iff.mp hnil ▸ .nil)
  | cons hmem _ ih =>
    obtain ⟨word, rest, rfl, hword, hrest⟩ := List.map_eq_cons_iff.mp hwords
    obtain ⟨-, -, hbelow⟩ := Binding.defectBelow?_of_mem hvalid hmem
    exact .cons (hfind hvalid hmem hword) (ih hbelow hrest)

theorem isChain_of_pathTo (h : PathTo leaf bindings path)
    (hvalid : Binding.defectBelow? labels [] bindings = none) :
    IsChain bindings (path.map Binding.label) path :=
  isChain_of_lowercase_eq h hvalid List.map_map

/-- In a tree without a defect the labels of a path are words, and the form at its end has no
defect. -/
theorem words_of_pathTo (h : PathTo leaf bindings path)
    (hvalid : Binding.defectBelow? labels [] bindings = none) :
    (∀ b ∈ path, b.label ≠ "" ∧ IsWord b.label.toList) ∧
      (∀ form, leaf.form = some form → form.defect? = none) ∧ path.getLast? = some leaf := by
  induction h generalizing labels with
  | single hmem =>
    obtain ⟨hword, hform, -⟩ := Binding.defectBelow?_of_mem hvalid hmem
    refine ⟨fun b hb => ?_, hform, rfl⟩
    rwa [List.mem_singleton.mp hb]
  | cons hmem hpath ih =>
    obtain ⟨hword, -, hbelow⟩ := Binding.defectBelow?_of_mem hvalid hmem
    obtain ⟨hwords, hform, hlast⟩ := ih hbelow
    refine ⟨fun b hb => ?_, hform, ?_⟩
    · rcases List.mem_cons.mp hb with rfl | hb
      · exact hword
      · exact hwords b hb
    · rw [List.getLast?_cons, hlast]
      rfl

/-! ## Reading back -/

/-- Of assignments to different fields each one is found. -/
theorem getElem?_applyAll {assignments : List Assignment}
    (h : assignments.Pairwise fun a b => a.field ≠ b.field) (values : Values) (name : String) :
    (applyAll values assignments)[name]? =
      ((assignments.find? (·.field == name)).map Assignment.value).or values[name]? := by
  induction assignments generalizing values with
  | nil => rfl
  | cons a assignments ih =>
    obtain ⟨hhead, htail⟩ := List.pairwise_cons.mp h
    show (applyAll (values.insert a.field a.value) assignments)[name]? = _
    rw [ih htail, Std.ExtTreeMap.getElem?_insert]
    by_cases hname : a.field = name
    · have hnone : assignments.find? (·.field == name) = none := by
        rw [List.find?_eq_none]
        intro b hb hbname
        exact hhead b hb (hname.trans (eq_of_beq hbname).symm)
      have hfound : (a :: assignments).find? (·.field == name) = some a :=
        List.find?_cons_of_pos (beq_iff_eq.mpr hname)
      rw [hnone, hfound, if_pos (Std.compare_eq_iff_eq.mpr hname)]
      rfl
    · have hskip : (a :: assignments).find? (·.field == name) =
          assignments.find? (·.field == name) :=
        List.find?_cons_of_neg (hname ∘ eq_of_beq)
      rw [hskip, if_neg (hname ∘ Std.compare_eq_iff_eq.mp)]

/-- Of values for different fields each one is found. -/
theorem getElem?_assignmentOf {given : List (Field × Value)} (hform : form.defect? = none)
    (hmem : ∀ p ∈ given, p.1 ∈ form.fields) (hdistinct : (given.map Prod.fst).Nodup)
    (name : String) :
    (applyAll ∅ (given.map assignmentOf))[name]? =
      (given.find? (·.1.name == name)).map Prod.snd := by
  have hpairwise : (given.map assignmentOf).Pairwise fun a b => a.field ≠ b.field := by
    rw [List.pairwise_map]
    refine (List.pairwise_map.mp hdistinct).imp_of_mem ?_
    intro p q hp hq hne hname
    exact hne (Form.eq_of_name_eq hform (hmem p hp) (hmem q hq) hname)
  rw [getElem?_applyAll hpairwise, List.find?_map, Std.ExtTreeMap.getElem?_empty, Option.or_none,
    Option.map_map]
  rfl

/-- A command that is matched to a leaf with an inline form is scanned against that form. -/
theorem Session.parse_of_leaf {m : Type → Type} [Monad m] (session : Session) (backend : Backend m)
    {command : String} {leaf : Binding} (hleaf : leaf.isLeaf = true) (hform : leaf.form = some form)
    (hmatch : ((Scan.ofText command).matchBinding session.bindings .execute).isFailed = false)
    (hbinding :
      ((Scan.ofText command).matchBinding session.bindings .execute).binding = some leaf) :
    session.parse backend command .execute = pure (.ok
      ((((Scan.ofText command).matchBinding session.bindings .execute).withForm form).parseForm
        .execute)) := by
  have hscan : session.matchCommand command .execute =
      (Scan.ofText command).matchBinding session.bindings .execute := by
    show Scan.requireLeaf _ = _
    rw [Scan.requireLeaf, hbinding]
    simp [hleaf]
  have hsource : session.formSource
      ((Scan.ofText command).matchBinding session.bindings .execute) = .inline form := by
    rw [Session.formSource, hmatch, hbinding]
    simp only [hform]
  unfold Session.parse
  rw [hscan]
  simp only [hsource]

/-- **Round trip.**  In a tree without a defect, take a leaf with an inline form whose flags have no
blanks and no equals signs, and values for any of its fields, in any order.  The command written for
them is read without an error, and gives these fields these values and no other field any. -/
theorem parse_writeCommand {m : Type → Type} [Monad m] (session : Session) (backend : Backend m)
    (hvalid : Binding.treeDefect? session.bindings = none)
    (hpath : PathTo leaf session.bindings path) (hleaf : leaf.isLeaf = true)
    (hform : leaf.form = some form)
    (hflags : ∀ f ∈ form.fields, ∀ c ∈ f.flagName.toList, c ≠ '=' ∧ Text.isBlank c = false)
    {given : List (Field × Value)} (hgiven : ∀ p ∈ given, p.1 ∈ form.fields ∧ Fits p.1 p.2)
    (hdistinct : (given.map Prod.fst).Nodup) (bareBools : Bool) :
    ∃ scan, session.parse backend (writeCommand bareBools path given) .execute = pure (.ok scan) ∧
      scan.error? = none ∧
      ∀ name : String, scan.values[name]? = (given.find? (·.1.name == name)).map Prod.snd := by
  obtain ⟨hwords, hvalidForm, hlast⟩ := words_of_pathTo hpath hvalid
  have hdefect : form.defect? = none := hvalidForm form hform
  let labels := path.map fun b => b.label.toList
  let parameters := given.map fun p => (writeParameter bareBools p).toList
  have htext : (writeCommand bareBools path given).toList =
      '/' :: [' '].intercalate (labels ++ parameters) := by
    simp [writeCommand, labels, parameters, Function.comp_def]
  -- the command spells the path and leaves the parameters
  have hspelled : Spelled ([' '].intercalate parameters) (path.map Binding.label)
      ([' '].intercalate (labels ++ parameters)) := by
    have hlabels : labels.map String.ofList = path.map Binding.label := by
      simp [labels, Function.comp_def]
    rw [← hlabels]
    refine spelled_intercalate ?_ ?_
    · intro w hw
      obtain ⟨b, hb, rfl⟩ := List.mem_map.mp hw
      obtain ⟨hne, hblank⟩ := hwords b hb
      exact ⟨fun hnil => hne (String.toList_eq_nil_iff.mp hnil), hblank⟩
    · intro w hw
      obtain ⟨p, -, rfl⟩ := List.mem_map.mp hw
      rw [toList_writeParameter]
      exact ⟨'-', _, rfl, by decide⟩
  obtain ⟨hmatch, hbinding, hdrop⟩ := Scan.matchBinding_of_spelled htext hspelled
    (isChain_of_pathTo hpath hvalid) (by rw [List.length_map]) hlast
    (List.isEmpty_iff.mp hleaf)
  -- the parameters derive
  have hname : ∀ f ∈ form.fields, ∀ c ∈ f.flagName.toList, IsNameChar c := by
    intro f hf c hc
    obtain ⟨hequals, hblank⟩ := hflags f hf c hc
    rw [IsNameChar, hblank]
    exact fun h => h.elim hequals Bool.false_ne_true
  have hderived : ParametersText form 0 ∅ ([' '].intercalate parameters)
      (given.map assignmentOf) :=
    parametersText_writeParameter hdefect fun p hp =>
      ⟨(hgiven p hp).1, hname p.1 (hgiven p hp).1, (hgiven p hp).2⟩
  obtain ⟨hfailed, hvalues⟩ := Scan.parseForm_of_parametersText hmatch (hdrop ▸ hderived)
  refine ⟨_, session.parse_of_leaf backend hleaf hform hmatch hbinding,
    Scan.error?_eq_none_of_isFailed hfailed, ?_⟩
  intro name
  rw [hvalues]
  exact getElem?_assignmentOf hdefect (fun p hp => (hgiven p hp).1) hdistinct name

/-- A command with a list, some of it in need of escapes, and a truth value. -/
theorem parse_writeCommand_issue :
    let labels : Field := { name := "labels", multiselect := true }
    let urgent : Field := { name := "urgent", type := .bool, label := some "now" }
    let form : Form := { fields := [{ name := "summary", position := 1 }, labels, urgent] }
    let issue : Binding := { label := "issue", form := some form }
    let jira : Binding := { label := "jira", bindings := [issue] }
    let session : Session := { bindings := [jira] }
    let backend : Backend Id := {
      performCall := fun _ _ => .error (.transport "offline")
      userByUsername := fun _ => .ok none
      channelByName := fun _ _ => .ok none
      usersByPrefix := fun _ => .ok []
      channelsByPrefix := fun _ _ => .ok [] }
    let given : List (Field × Value) :=
      [(urgent, .scalar "false"), (labels, .list ["a,b", "\\]\""])]
    let command := "/jira issue --now false --labels [\"a,b\", \"\\\\]\\\"\"]"
    Binding.treeDefect? session.bindings = none ∧ PathTo issue session.bindings [jira, issue] ∧
      writeCommand true [jira, issue] given = command ∧
      ∃ scan, session.parse backend command .execute = pure (.ok scan) ∧ scan.error? = none ∧
        ∀ name : String, scan.values[name]? = (given.find? (·.1.name == name)).map Prod.snd := by
  intro labels urgent form issue jira session backend given command
  have hvalid : Binding.treeDefect? session.bindings = none := by
    have hnil (path before : List String) : Binding.defectBelow? path before [] = none := by
      rw [Binding.defectBelow?]
    have hissue : Binding.defectBelow? ["jira"] [] [issue] = none :=
      Binding.defectBelow?_cons_eq_none_iff.mpr ⟨by decide, by decide, hnil _ _, hnil _ _⟩
    exact Binding.defectBelow?_cons_eq_none_iff.mpr ⟨by decide, by decide, hissue, hnil _ _⟩
  have hpath : PathTo issue session.bindings [jira, issue] :=
    .cons List.mem_cons_self (.single List.mem_cons_self)
  have hcommand : writeCommand true [jira, issue] given = command := by decide
  have hflags : ∀ f ∈ form.fields, ∀ c ∈ f.flagName.toList, c ≠ '=' ∧ Text.isBlank c = false := by
    decide
  have hgiven : ∀ p ∈ given, p.1 ∈ form.fields ∧ Fits p.1 p.2 := by
    intro p hp
    rcases List.mem_cons.mp hp with rfl | hp
    · exact ⟨by decide, .scalar rfl (by decide) fun _ => .inr rfl⟩
    · rw [List.mem_singleton.mp hp]
      exact ⟨by decide, .list rfl (by decide)⟩
  have hdistinct : (given.map Prod.fst).Nodup := by decide
  refine ⟨hvalid, hpath, hcommand, ?_⟩
  rw [← hcommand]
  exact parse_writeCommand session backend hvalid hpath rfl rfl hflags hgiven hdistinct true

end SlashCommand
