import SlashCommand.Proofs.Scan.Retyping
import SlashCommand.Proofs.Text.Lowercase
import SlashCommand.Session.Basic

/-!
# Recognizing commands of apps

Whether a text is a command of an app is found out in two ways.  `isAppCommand` lower-cases the text
and looks for the lower case of a label behind the slash, with a blank behind it.  The scan for
typing cuts out the first word as it is typed and looks up its binding.

Either way the text begins with a slash and a word that a blank follows, and the word is a label in
any case (`Names`).

* `isSome_matchBinding_iff`: the scan finds a binding for a text that does, whatever the bindings
  are.
* `isAppCommand_iff_names`: the text is recognized if it does, where the labels are words.  Then the
  label that is looked for is the whole first word and not a part of it, and the first word of the
  text in lower case is the lower case of its first word.
* `isAppCommand_iff_binding`: so both agree on trees without a defect.
-/

namespace SlashCommand

/-- The text begins with a slash, then a word that is the label of a binding in any case, and then a
blank. -/
def Binding.Names (bindings : List Binding) (text : String) : Prop :=
  ∃ rest, text.toList = '/' :: rest ∧ behindWord rest ≠ [] ∧
    ∃ b, Binding.find? bindings (String.ofList (firstWord rest)) = some b

variable {bindings : List Binding} {b : Binding} {text : String} {rest : List Char}

/-! ## The scan -/

namespace Scan

/-- The binding of a command is the last one of the chain that is entered. -/
theorem binding_matchBinding (hslash : text.toList = '/' :: rest) (hne : bindings ≠ [])
    (mode : ScanMode) :
    ((ofText text).matchBinding bindings mode).binding =
      (deepestChain bindings (lookedUp mode (tokensFrom 1 rest))).getLast? := by
  obtain ⟨chain, state, cursor, token, hchain, hdescend, -⟩ :=
    descend_behindSlash mode bindings hslash
  rw [matchBinding_ofText hslash hne, (binding_matched _ _).1, hdescend, ← hchain]
  show (chain.foldl enter (behindSlash text bindings)).binding = _
  rw [binding_foldl_enter]
  exact Option.or_none

/-- A binding is entered if the first token is complete and a label. -/
theorem deepestChain_ne_nil_iff :
    deepestChain bindings (lookedUp .autocomplete (tokensFrom 1 rest)) ≠ [] ↔
      behindWord rest ≠ [] ∧
        ∃ b, Binding.find? bindings (String.ofList (firstWord rest)) = some b := by
  rw [tokensFrom]
  by_cases hbehind : behindWord rest = []
  · -- the token is not complete, and there is no other one
    have hnext : nextWord rest = [] := by rw [nextWord, hbehind]; rfl
    rw [dif_neg (not_not_intro hnext), hbehind]
    exact iff_of_false (fun h => h rfl) (fun h => h.1 rfl)
  · rw [lookedUp_cons_of_complete (.inr (by simp [hbehind]))]
    cases hfind : Binding.find? bindings (String.ofList (firstWord rest)) with
    | none =>
      rw [deepestChain_cons_of_none hfind]
      refine iff_of_false (fun h => h rfl) ?_
      rintro ⟨-, b, hb⟩
      cases hb
    | some b =>
      rw [deepestChain_cons_of_some hfind]
      exact iff_of_true (List.cons_ne_nil _ _) ⟨hbehind, b, rfl⟩

/-- A command that is typed has a binding if it names one. -/
theorem isSome_matchBinding_iff :
    ((ofText text).matchBinding bindings .autocomplete).binding.isSome = true ↔
      Binding.Names bindings text := by
  constructor
  · intro hsome
    obtain ⟨b, hb⟩ := Option.isSome_iff_exists.mp hsome
    obtain ⟨hne, rest, hslash⟩ := exists_slash hb
    rw [binding_matchBinding hslash hne] at hb
    refine ⟨rest, hslash, deepestChain_ne_nil_iff.mp ?_⟩
    rintro hnil
    rw [hnil] at hb
    cases hb
  · rintro ⟨rest, hslash, hbehind, b, hfind⟩
    have hne : bindings ≠ [] := by
      rintro rfl
      cases hfind
    have hchain := deepestChain_ne_nil_iff.mpr ⟨hbehind, b, hfind⟩
    rw [binding_matchBinding hslash hne, List.getLast?_isSome]
    exact hchain

end Scan

/-! ## The lower case of the text -/

namespace Text

theorem dropPrefix?_eq_some_iff {p s after : String} :
    dropPrefix? p s = some after ↔ s.toList = p.toList ++ after.toList := by
  rw [dropPrefix?, Option.map_eq_some_iff]
  constructor
  · rintro ⟨r, hr, rfl⟩
    rw [String.toList_ofList]
    exact afterPrefix?_eq_some_iff.mp hr
  · intro h
    exact ⟨after.toList, afterPrefix?_eq_some_iff.mpr h, String.ofList_toList⟩

/-- A word with a blank behind it begins the lower case of a text if it is the lower case of the
first word, and there is a blank behind that. -/
theorem lowerAfter_eq_append_iff {w : List Char} (hw : IsWord w) :
    (∃ c after, lowerAfter [] rest = w ++ c :: after ∧ isBlank c = true) ↔
      behindWord rest ≠ [] ∧ lowerAfter [] (firstWord rest) = w := by
  have hlower : lowerAfter [] rest = lowerAfter [] (firstWord rest) ++
      lowerAfter ((firstWord rest).reverse ++ []) (behindWord rest) := by
    rw [← lowerAfter_append (startsBlank_behindWord rest), firstWord_append_behindWord]
  have hword : IsWord (lowerAfter [] (firstWord rest)) :=
    isWord_lowerAfter_iff.mpr (isWord_firstWord rest)
  have hblank : StartsBlank (lowerAfter ((firstWord rest).reverse ++ []) (behindWord rest)) :=
    startsBlank_lowerAfter (startsBlank_behindWord rest)
  constructor
  · rintro ⟨c, after, heq, hc⟩
    have hfirst := firstWord_append hw (startsBlank_cons (r := after) hc)
    rw [← heq, hlower, firstWord_append hword hblank] at hfirst
    refine ⟨fun hnil => ?_, hfirst⟩
    rw [hlower, hfirst, hnil, lowerAfter, List.append_nil] at heq
    exact List.cons_ne_nil c after (List.self_eq_append_right.mp heq)
  · rintro ⟨hbehind, rfl⟩
    cases hafter : lowerAfter ((firstWord rest).reverse ++ []) (behindWord rest) with
    | nil => exact absurd (lowerAfter_eq_nil_iff.mp hafter) hbehind
    | cons c after =>
      rw [hafter] at hblank hlower
      exact ⟨c, after, hlower, hblank c rfl⟩

end Text

namespace Session

variable {s : Session}

/-- A label is found behind the slash if a blank follows it there. -/
theorem any_label_iff {after : String} :
    (s.bindings.any fun b =>
      match Text.dropPrefix? (Text.lowercase b.label) after with
      | some behind => behind.toList.head?.any Text.isBlank
      | none => false) = true ↔
      ∃ b ∈ s.bindings, ∃ c behind,
        after.toList = (Text.lowercase b.label).toList ++ c :: behind ∧ Text.isBlank c = true := by
  rw [List.any_eq_true]
  refine exists_congr fun b => and_congr_right fun _ => ?_
  cases hdrop : Text.dropPrefix? (Text.lowercase b.label) after with
  | none =>
    refine iff_of_false Bool.false_ne_true ?_
    rintro ⟨c, behind, heq, -⟩
    have hsome : Text.dropPrefix? (Text.lowercase b.label) after =
        some (String.ofList (c :: behind)) :=
      Text.dropPrefix?_eq_some_iff.mpr (by rwa [String.toList_ofList])
    rw [hdrop] at hsome
    cases hsome
  | some behind =>
    have heq := Text.dropPrefix?_eq_some_iff.mp hdrop
    dsimp only
    rw [Option.any_eq_true]
    constructor
    · rintro ⟨c, hc, hblank⟩
      obtain ⟨r, hr⟩ := List.head?_eq_some_iff.mp hc
      exact ⟨c, r, hr ▸ heq, hblank⟩
    · rintro ⟨c, r, hr, hblank⟩
      have hbehind : behind.toList = c :: r := List.append_cancel_left (heq.symm.trans hr)
      exact ⟨c, by rw [hbehind]; rfl, hblank⟩

/-- A text is a command of an app if there are a slash and the lower case of a label in front of a
blank in its lower case. -/
theorem isAppCommand_iff_lowercase :
    s.isAppCommand text = true ↔ ∃ rest, text.toList = '/' :: rest ∧ ∃ b ∈ s.bindings,
      ∃ c behind, Text.lowerAfter [] rest = (Text.lowercase b.label).toList ++ c :: behind ∧
        Text.isBlank c = true := by
  have hlower : (Text.lowercase text).toList = Text.lowerAfter [] text.toList :=
    String.toList_ofList
  unfold isAppCommand
  cases hdrop : Text.dropPrefix? "/" (Text.lowercase text) with
  | none =>
    refine iff_of_false Bool.false_ne_true ?_
    rintro ⟨rest, hslash, -⟩
    have hsome : Text.dropPrefix? "/" (Text.lowercase text) =
        some (String.ofList (Text.lowerAfter [] rest)) := by
      refine Text.dropPrefix?_eq_some_iff.mpr ?_
      rw [hlower, hslash, Text.lowerAfter_slash]
      show '/' :: _ = '/' :: (String.ofList _).toList
      rw [String.toList_ofList]
    rw [hdrop] at hsome
    cases hsome
  | some after =>
    have hafter : Text.lowerAfter [] text.toList = '/' :: after.toList :=
      hlower.symm.trans (Text.dropPrefix?_eq_some_iff.mp hdrop)
    obtain ⟨rest, hslash⟩ := Text.exists_slash_of_lowerAfter hafter
    rw [hslash, Text.lowerAfter_slash] at hafter
    have hrest : Text.lowerAfter [] rest = after.toList := (List.cons.inj hafter).2
    refine any_label_iff.trans ?_
    rw [← hrest]
    constructor
    · exact fun h => ⟨rest, hslash, h⟩
    · rintro ⟨rest', hslash', h⟩
      obtain rfl := (List.cons.inj (hslash.symm.trans hslash')).2
      exact h

/-- Where the labels are words, a text is a command of an app if it names a binding. -/
theorem isAppCommand_iff_names (hlabels : ∀ b ∈ s.bindings, IsWord b.label.toList) :
    s.isAppCommand text = true ↔ Binding.Names s.bindings text := by
  rw [isAppCommand_iff_lowercase, Binding.Names]
  refine exists_congr fun rest => and_congr_right fun _ => ?_
  have hlabel (b : Binding) (hb : b ∈ s.bindings) :
      (∃ c behind, Text.lowerAfter [] rest = (Text.lowercase b.label).toList ++ c :: behind ∧
        Text.isBlank c = true) ↔
      behindWord rest ≠ [] ∧ Text.eqIgnoreCase b.label (String.ofList (firstWord rest)) = true := by
    rw [Text.lowerAfter_eq_append_iff (Text.isWord_lowercase_iff.mpr (hlabels b hb)),
      Text.eqIgnoreCase, beq_iff_eq, Text.lowercase, Text.lowercase, String.toList_ofList,
      String.toList_ofList, String.ofList_inj, eq_comm]
  constructor
  · rintro ⟨b, hb, hbegins⟩
    obtain ⟨hbehind, hname⟩ := (hlabel b hb).mp hbegins
    refine ⟨hbehind, Option.isSome_iff_exists.mp ?_⟩
    exact List.find?_isSome.mpr ⟨b, hb, hname⟩
  · rintro ⟨hbehind, b, hfind⟩
    have hb : b ∈ s.bindings := List.mem_of_find?_eq_some hfind
    exact ⟨b, hb, (hlabel b hb).mpr ⟨hbehind, Binding.label_of_find? hfind⟩⟩

/-- **Commands of apps are recognized alike.**  On a tree without a defect a text is a command of an
app exactly if the scan for typing finds a binding for it. -/
theorem isAppCommand_iff_binding (hvalid : Binding.treeDefect? s.bindings = none) (text : String) :
    s.isAppCommand text = true ↔
      ((Scan.ofText text).matchBinding s.bindings .autocomplete).binding ≠ none := by
  have hlabels : ∀ b ∈ s.bindings, IsWord b.label.toList := fun b hb =>
    (Binding.defectBelow?_of_mem hvalid hb).1.2
  rw [isAppCommand_iff_names hlabels, ← Scan.isSome_matchBinding_iff, Option.isSome_iff_ne_none]

/-- A label that ends in a sigma, which is the final one in lower case. -/
theorem isAppCommand_iff_binding_sigma :
    let s : Session := { bindings := [{ label := "ΟΔΟΣ" }] }
    let text := "/οδοΣ x"
    s.isAppCommand text = true ∧
      ((Scan.ofText text).matchBinding s.bindings .autocomplete).binding ≠ none := by
  intro s text
  have hvalid : Binding.treeDefect? s.bindings = none := by
    have hlabel : Binding.labelDefect? [] [] "ΟΔΟΣ" = none := by decide
    rw [Binding.treeDefect?, Binding.defectBelow?_cons_eq_none_iff]
    exact ⟨hlabel, rfl, Binding.defectBelow?_nil, Binding.defectBelow?_nil⟩
  have hrecognized : s.isAppCommand text = true := by decide +kernel
  exact ⟨hrecognized, (isAppCommand_iff_binding hvalid text).mp hrecognized⟩

end Session

end SlashCommand
