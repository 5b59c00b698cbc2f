import SlashCommand.Proofs.Binding.Validation
import SlashCommand.Scan.Error
import SlashCommand.Text.Lowercase

/-!
# The grammar of parameters

The parameters of a command are a language over the fields of a form.  It is given here by
derivations, with no scanner in sight: which texts are values, lists, parameters and sequences of
parameters, and what they assign.

* A value is bare, quoted, or a list in brackets.  Inside quotation marks nothing ends a value but
  the closing mark (`QuotedText`).
* A parameter is a flag with its value, or the value of the field at the next position
  (`ParameterText`).
* Parameters stand apart by blanks.  A parameter for which there is no position gives all that is
  left of the text, verbatim, to the field that takes the rest of the line (`ParametersText`).

Words are maximal: where a rule reads a run of characters of a kind, the rule says that no character
of that kind follows.
-/

namespace SlashCommand

/-- What a parameter gives to a field. -/
structure Assignment where
  field : String
  value : Value
deriving DecidableEq, Repr

/-- The values that assignments leave behind, where a later one replaces an earlier one. -/
def applyAll (values : Values) (assignments : List Assignment) : Values :=
  assignments.foldl (fun values a => values.insert a.field a.value) values

/-! ## Values -/

theorem Quote.char_cases (q : Quote) : q.char = '"' ∨ q.char = '\x60' := by
  cases q with
  | double => exact .inl rfl
  | tick => exact .inr rfl

theorem Quote.forall_ne_char {c : Char} :
    (∀ q : Quote, c ≠ q.char) ↔ c ≠ '"' ∧ c ≠ '\x60' := by
  refine ⟨fun h => ⟨h .double, h .tick⟩, fun ⟨hdouble, htick⟩ q => ?_⟩
  rcases q.char_cases with hq | hq
  · rwa [hq]
  · rwa [hq]

instance (c : Char) : Decidable (∀ q : Quote, c ≠ q.char) :=
  decidable_of_iff' _ Quote.forall_ne_char

/-- A text between quotation marks, and what it stands for.  Between double quotes a backslash makes
the next character literal. -/
inductive QuotedText (q : Quote) : List Char → List Char → Prop
  | nil : QuotedText q [] []
  | plain {c : Char} {body token : List Char} : c ≠ q.char → ¬ (c = '\\' ∧ q = .double) →
      QuotedText q body token → QuotedText q (c :: body) (c :: token)
  | escaped {c : Char} {body token : List Char} : q = .double →
      QuotedText q body token → QuotedText q ('\\' :: c :: body) (c :: token)

/-- A text in quotation marks, which must not be empty. -/
inductive Quotation : List Char → List Char → Prop
  | mk {q : Quote} {body token : List Char} : body ≠ [] → QuotedText q body token →
      Quotation (q.char :: (body ++ [q.char])) token

/-- The character begins a bare value of the field. -/
def BeginsBare (field : Field) (c : Char) : Prop :=
  (∀ q : Quote, c ≠ q.char) ∧ ¬ (c = '[' ∧ field.multiselect = true) ∧ Text.isBlank c = false

/-- A single token and its text. -/
inductive TokenText (field : Field) : List Char → List Char → Prop
  | bare {c : Char} {w : List Char} : BeginsBare field c → IsWord w →
      TokenText field (c :: w) (c :: w)
  | quoted {text token : List Char} : Quotation text token → TokenText field text token

/-- The characters that a bare list element consists of. -/
def IsElementChar (c : Char) : Prop :=
  Text.isBlank c = false ∧ c ≠ ',' ∧ c ≠ ']' ∧ c ≠ '[' ∧ ∀ q : Quote, c ≠ q.char

instance (c : Char) : Decidable (IsElementChar c) :=
  inferInstanceAs (Decidable (_ ∧ _))

/-- An element of a list. -/
inductive ElementText : List Char → List Char → Prop
  | bare {w : List Char} : w ≠ [] → (∀ c ∈ w, IsElementChar c) → ElementText w w
  | quoted {text token : List Char} : Quotation text token → ElementText text token

/-- The elements of a list from the first one on, up to the closing bracket. -/
inductive ElementsText : List Char → List String → Prop
  | last {text token gap : List Char} : ElementText text token → IsGap gap →
      ElementsText (text ++ (gap ++ [']'])) [String.ofList token]
  | more {text token gap gap' rest : List Char} {tokens : List String} : ElementText text token →
      IsGap gap → IsGap gap' → ElementsText rest tokens →
      ElementsText (text ++ (gap ++ ',' :: (gap' ++ rest))) (String.ofList token :: tokens)

/-- A list behind its opening bracket. -/
inductive ListText : List Char → List String → Prop
  | empty {gap : List Char} : IsGap gap → ListText (gap ++ [']']) []
  | elements {gap text : List Char} {tokens : List String} : IsGap gap →
      ElementsText text tokens → ListText (gap ++ text) tokens

/-- A value of a field.  A boolean field has two values. -/
inductive ValueText (field : Field) : List Char → Value → Prop
  | token {text token : List Char} : TokenText field text token →
      (field.type = .bool → String.ofList token = "true" ∨ String.ofList token = "false") →
      ValueText field text (.ofToken field.multiselect (String.ofList token))
  | list {text : List Char} {tokens : List String} : field.multiselect = true →
      ListText text tokens → ValueText field ('[' :: text) (.list tokens)

theorem Quotation.exists_cons {text token : List Char} (h : Quotation text token) :
    ∃ (q : Quote) (r : List Char), text = q.char :: r := by
  obtain ⟨-, -⟩ := h
  exact ⟨_, _, rfl⟩

/-- An element begins with a character that does nothing else in a list. -/
theorem ElementText.exists_cons {text token : List Char} (h : ElementText text token) :
    ∃ c r, text = c :: r ∧ Text.isBlank c = false ∧ c ≠ ']' ∧ c ≠ ',' := by
  cases h with
  | bare hne hchars =>
    obtain ⟨c, r, rfl⟩ := List.exists_cons_of_ne_nil hne
    obtain ⟨hblank, hcomma, hclose, -⟩ := hchars c List.mem_cons_self
    exact ⟨c, r, rfl, hblank, hclose, hcomma⟩
  | quoted h =>
    obtain ⟨q, r, rfl⟩ := h.exists_cons
    refine ⟨q.char, r, rfl, ?_⟩
    rcases q.char_cases with hq | hq
    all_goals
      rw [hq]
      decide

theorem ElementsText.exists_cons {text : List Char} {tokens : List String}
    (h : ElementsText text tokens) :
    ∃ c r, text = c :: r ∧ Text.isBlank c = false ∧ c ≠ ']' ∧ c ≠ ',' := by
  cases h with
  | last h _ =>
    obtain ⟨c, r, rfl, hc⟩ := h.exists_cons
    exact ⟨c, _, rfl, hc⟩
  | more h _ _ _ =>
    obtain ⟨c, r, rfl, hc⟩ := h.exists_cons
    exact ⟨c, _, rfl, hc⟩

/-- A value begins with a character that is not blank. -/
theorem ValueText.exists_cons {field : Field} {text : List Char} {value : Value}
    (h : ValueText field text value) : ∃ c r, text = c :: r ∧ Text.isBlank c = false := by
  cases h with
  | token h _ =>
    cases h with
    | bare hc _ =>
      obtain ⟨-, -, hblank⟩ := hc
      exact ⟨_, _, rfl, hblank⟩
    | quoted h =>
      obtain ⟨q, r, rfl⟩ := h.exists_cons
      refine ⟨q.char, r, rfl, ?_⟩
      rcases q.char_cases with hq | hq
      all_goals
        rw [hq]
        decide
  | list _ _ => exact ⟨'[', _, rfl, rfl⟩

/-! ## Parameters -/

/-- The characters of the name of a flag. -/
def IsNameChar (c : Char) : Prop := ¬ (c = '=' ∨ Text.isBlank c = true)

instance (c : Char) : Decidable (IsNameChar c) := inferInstanceAs (Decidable (¬ _))

/-- The dashes in front of a flag: two if there are two, otherwise one. -/
def LeadingDashes (dashes rest : List Char) : Prop :=
  dashes = ['-', '-'] ∨ dashes = ['-'] ∧ rest.head? ≠ some '-'

/-- Whether a second dash follows is seen from the next character. -/
theorem leadingDashes_append {dashes text r : List Char} (h : text ≠ []) :
    LeadingDashes dashes (text ++ r) ↔ LeadingDashes dashes text := by
  obtain ⟨c, text, rfl⟩ := List.exists_cons_of_ne_nil h
  exact Iff.rfl

/-- What stands between the name of a flag and its value. -/
structure IsSeparator (text : List Char) : Prop where
  chars : ∀ c ∈ text, ¬ IsNameChar c
  equals : text.count '=' ≤ 1

/-- The first field with the given name of a flag, in any case. -/
def Form.flag? (form : Form) (name : List Char) : Option Field :=
  form.fields.find? fun f => Text.eqIgnoreCase f.flagName (String.ofList name)

/-- In a form without a defect every field has the name of its flag for itself. -/
theorem Form.flag?_of_mem {form : Form} {field : Field} (hform : form.defect? = none)
    (hf : field ∈ form.fields) : form.flag? field.flagName.toList = some field := by
  rw [Form.flag?, String.ofList_toList]
  exact Form.find?_flagName_of_mem hform hf

/-- A parameter behind `k` positional ones: its text, the number of positional ones with it, and
what it assigns. -/
inductive ParameterText (form : Form) (k : Nat) : List Char → Nat → Assignment → Prop
  | flag {dashes name separator text : List Char} {field : Field} {value : Value} :
      LeadingDashes dashes (name ++ (separator ++ text)) → (∀ c ∈ name, IsNameChar c) →
      form.flag? name = some field → separator ≠ [] → IsSeparator separator →
      (∀ c ∈ text.head?, IsNameChar c) → ValueText field text value →
      ParameterText form k (dashes ++ (name ++ (separator ++ text))) k ⟨field.name, value⟩
  | positional {text : List Char} {field : Field} {value : Value} : text.head? ≠ some '-' →
      form.positional? (k + 1 : Nat) = some field → ValueText field text value →
      ParameterText form k text (k + 1) ⟨field.name, value⟩

theorem ParameterText.ne_nil {form : Form} {k k' : Nat} {text : List Char} {a : Assignment}
    (h : ParameterText form k text k' a) : text ≠ [] := by
  cases h with
  | flag hdashes =>
    rcases hdashes with rfl | ⟨rfl, -⟩
    · exact List.cons_ne_nil _ _
    · exact List.cons_ne_nil _ _
  | positional _ _ hvalue =>
    obtain ⟨c, r, rfl, -⟩ := hvalue.exists_cons
    exact List.cons_ne_nil c r

/-- The first field that takes the rest of the line and has no value yet. -/
def Form.openRest? (form : Form) (values : Values) : Option Field :=
  form.fields.find? fun f => f.isRest && !values.contains f.name

/-- Parameters behind `k` positional ones, where the fields have the given values, and their
assignments. -/
inductive ParametersText (form : Form) : Nat → Values → List Char → List Assignment → Prop
  | none {k : Nat} {values : Values} : ParametersText form k values [] []
  | more {k k' : Nat} {values : Values} {text gap rest : List Char} {a : Assignment}
      {assignments : List Assignment} : ParameterText form k text k' a → IsGap gap →
      (gap = [] → rest = []) → StartsPlain rest →
      ParametersText form k' (values.insert a.field a.value) rest assignments →
      ParametersText form k values (text ++ (gap ++ rest)) (a :: assignments)
  | rest {k : Nat} {values : Values} {text : List Char} {field : Field} : text ≠ [] →
      text.head? ≠ some '-' → form.positional? (k + 1 : Nat) = none →
      form.openRest? values = some field →
      ParametersText form k values text
        [⟨field.name, .ofToken field.multiselect (String.ofList text)⟩]

end SlashCommand
