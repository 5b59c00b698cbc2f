import SlashCommand.Proofs.Scan.Addresses
import SlashCommand.Proofs.Session.Runs
import Mathlib.Data.Option.Basic

/-!
# Which subcommands are offered

Behind the path to a binding with subcommands, or at the very beginning, a label is typed.  The
subcommands that are offered are those whose label goes on as the typed word does, in the order of
the tree, and each of them can be taken: what it completes the command to is matched to it
(`subcommands_of_suggest`).

The form of a binding would come before its subcommands, so that this is about trees where only
leaves have inline forms.
-/

namespace SlashCommand

/-- The suggestion goes on with a subcommand. -/
def Suggestion.isSubcommand (o : Suggestion) : Bool := o.source matches .command _

/-- Only leaves have inline forms. -/
def FormsAtLeaves (bindings : List Binding) : Prop :=
  ∀ address path b, Binding.pathAt? bindings address = some path → path.getLast? = some b →
    b.form.isSome = true → b.isLeaf = true

/-- A binding whose label goes on as a word does. -/
def Binding.isCompletion (word : String) (b : Binding) : Bool :=
  Text.hasPrefix (Text.lowercase word) (Text.lowercase b.label)

/-- What is offered for a binding behind a text, which is empty at the top of the tree. -/
def Binding.offerBehind (typed : String) (path : List Binding) (b : Binding) : Suggestion where
  complete := typed ++ b.label
  suggestion := if path = [] then "/" ++ b.label else b.label
  hint := b.hint.getD ""
  description := b.description.getD ""
  iconData := b.icon.getD ""
  source := .command b.label

variable {bindings path : List Binding} {parts : List (String × String)} {word : String}

namespace Scan

variable {s : Scan}

/-- A command is not offered to be executed before it has come to a leaf. -/
theorem offerExecution?_eq_none (h : ∀ b, s.binding = some b → b.isLeaf = false) :
    s.offerExecution? = none := by
  unfold offerExecution?
  cases hb : s.binding with
  | none => rfl
  | some b => simp [h b hb, guard]

/-- What is offered for the subcommands, in their places. -/
theorem map_splice_offerCommands {typed : String}
    (hbefore : s.textBefore s.tokenStart = "/" ++ typed)
    (htop : s.binding.isNone = decide (path = []))
    (hlabels : ∀ b ∈ s.candidates, b.label ≠ "") :
    s.offerCommands.map s.splice =
      (s.candidates.filter (Binding.isCompletion s.token)).map
        (Binding.offerBehind typed path) := by
  rw [offerCommands, List.map_map]
  refine List.map_congr_left fun b hb => ?_
  have hlabel : ¬ (b.label == "") = true := by
    simpa using hlabels b (List.mem_filter.mp hb).1
  have hdrop : Text.dropLeading '/' ("/" ++ typed ++ b.label) = typed ++ b.label := by
    simp [Text.dropLeading]
  simp only [Function.comp_def, splice, Suggestion.isError, hlabel, hbefore, hdrop, htop,
    Binding.offerBehind, decide_eq_true_eq, Bool.false_eq_true, if_false]

/-- Splicing a suggestion into the command does not change what it goes on with. -/
theorem isSubcommand_splice (s : Scan) (o : Suggestion) :
    (s.splice o).isSubcommand = o.isSubcommand := by
  unfold splice
  split
  · rfl
  · rfl

theorem form_foldl_enter (chain : List Binding) (s : Scan) :
    (chain.foldl enter s).form = s.form := by
  induction chain generalizing s with
  | nil => rfl
  | cons b chain ih => exact ih (s.enter b)

/-- The scan of a path with a word behind it, while it is typed: it has come to the end of the path,
and stands in the word. -/
structure StandsBehind (s : Scan) (bindings path : List Binding) (typed word : String) : Prop where
  reached : s.HasReached bindings path
  state_eq : s.state = .command
  token_eq : s.token = word
  form_eq : s.form = none
  textBefore_eq : s.textBefore s.tokenStart = "/" ++ typed

theorem standsBehind_matchBinding {address : List Nat} {text : String}
    (htext : text.toList = '/' :: ((writeTokens parts).toList ++ word.toList))
    (hne : bindings ≠ []) (hvalid : Binding.treeDefect? bindings = none)
    (hpath : Binding.pathAt? bindings address = some path)
    (htokens : parts.map (fun p => Text.lowercase p.1) =
      path.map fun b => Text.lowercase b.label)
    (happart : StandApart .autocomplete word.toList parts) :
    ((ofText text).matchBinding bindings .autocomplete).StandsBehind bindings path
      (writeTokens parts) word := by
  have hscan := matchBinding_writeTokens htext hne hvalid hpath htokens happart nofun
  have hchars := (sameInput_matchBinding (ofText text) bindings .autocomplete).text
  generalize (ofText text).matchBinding bindings .autocomplete = scan at hscan hchars ⊢
  refine ⟨hscan ▸ hasReached_relocate .., congrArg Scan.state hscan,
    (congrArg Scan.token hscan).trans String.ofList_toList, ?_, ?_⟩
  · rw [hscan]
    exact form_foldl_enter path (behindSlash text bindings)
  · have hstart : scan.tokenStart = 1 + (writeTokens parts).toList.length :=
      congrArg Scan.tokenStart hscan
    apply String.toList_inj.mp
    rw [textBefore, hchars, hstart, String.toList_ofList, Nat.add_comm]
    show (text.toList.take _) = _
    rw [htext, List.take_succ_cons, List.take_left]
    simp

/-- The subcommands that go on as the word does are offered behind the path. -/
theorem StandsBehind.map_splice_offerCommands {address : List Nat} {typed : String}
    (h : s.StandsBehind bindings path typed word) (hvalid : Binding.treeDefect? bindings = none)
    (hpath : Binding.pathAt? bindings address = some path) :
    s.offerCommands.map s.splice =
      ((Binding.levelBelow bindings path).filter (Binding.isCompletion word)).map
        (Binding.offerBehind typed path) := by
  have htop : s.binding.isNone = decide (path = []) := by
    rw [h.reached.binding]
    cases path with
    | nil => rfl
    | cons b path => simp
  have hlabels : ∀ b ∈ s.candidates, b.label ≠ "" := by
    intro b hb
    rw [h.reached.candidates] at hb
    obtain ⟨i, hi, rfl⟩ := List.mem_iff_getElem.mp hb
    have hbelow := Binding.pathAt?_append_singleton hpath (List.getElem?_eq_getElem hi)
    exact (labels_of_pathAt? hvalid hbelow _ (by simp)).1
  rw [Scan.map_splice_offerCommands h.textBefore_eq htop hlabels, h.token_eq, h.reached.candidates]

/-- A binding is matched when its label and a blank are written behind the path to its parent. -/
theorem hasReached_complete {address : List Nat} {b : Binding} (mode : ScanMode)
    (hne : bindings ≠ []) (hvalid : Binding.treeDefect? bindings = none)
    (hpath : Binding.pathAt? bindings address = some path)
    (hb : b ∈ Binding.levelBelow bindings path)
    (htokens : parts.map (fun p => Text.lowercase p.1) =
      path.map fun b => Text.lowercase b.label)
    (hgaps : ∀ p ∈ parts, p.2 ≠ "" ∧ IsGap p.2.toList) :
    ((ofText ("/" ++ (writeTokens parts ++ b.label) ++ " ")).matchBinding bindings mode).HasReached
      bindings (path ++ [b]) := by
  obtain ⟨i, hi, rfl⟩ := List.mem_iff_getElem.mp hb
  obtain ⟨b, hlabel⟩ : ∃ b, (Binding.levelBelow bindings path)[i] = b := ⟨_, rfl⟩
  rw [hlabel]
  have hbelow : Binding.pathAt? bindings (address ++ [i]) = some (path ++ [b]) :=
    Binding.pathAt?_append_singleton hpath (List.getElem?_eq_some_iff.mpr ⟨hi, hlabel⟩)
  have htokens' : (parts ++ [(b.label, " ")]).map (fun p => Text.lowercase p.1) =
      (path ++ [b]).map fun b => Text.lowercase b.label := by
    rw [List.map_append, List.map_append, htokens]
    rfl
  have hgaps' : ∀ p ∈ parts ++ [(b.label, " ")], p.2 ≠ "" ∧ IsGap p.2.toList := by
    intro p hp
    rcases List.mem_append.mp hp with hp | hp
    · exact hgaps p hp
    · rw [List.mem_singleton.mp hp]
      exact ⟨(by decide : " " ≠ ""), (by decide : IsGap " ".toList)⟩
  have htext : ("/" ++ (writeTokens parts ++ b.label) ++ " ").toList =
      '/' :: ((writeTokens (parts ++ [(b.label, " ")])).toList ++ []) := by
    simp [toList_writeTokens]
  exact hasReached_writeTokens htext hne hvalid hbelow htokens'
    (.of_gaps (words_of_pathAt? hvalid hbelow htokens') hgaps' nofun fun _ => rfl)
    fun _ => by simp

end Scan

namespace Session

variable {m : Type → Type} [Monad m] [LawfulMonad m] {s : Session} {backend : Backend m}
  {scan : Scan}

/-- Where no form is read and the command may not be executed, the offers for subcommands are all
offers there are, but for a note. -/
theorem filter_offers (backend : Backend m) (hstate : scan.state = .command)
    (hform : scan.form = none) (hexecution : scan.offerExecution? = none)
    (hmax : s.config.maxSuggestions = none) :
    ∃ offers, s.offers backend scan = pure offers ∧
      offers.filter Suggestion.isSubcommand = scan.offerCommands.map scan.splice := by
  unfold offers
  simp only [hstate, hform, hexecution, hmax, pure_bind, if_true, ite_self, Option.toList_none,
    List.nil_append, List.append_nil]
  refine ⟨_, rfl, ?_⟩
  split
  · rename_i hempty
    have hnil : scan.offerCommands = [] := by
      simp only [Bool.and_eq_true] at hempty
      exact List.isEmpty_iff.mp hempty.1.1.1
    rw [hnil]
    rfl
  · refine List.filter_eq_self.mpr fun o ho => ?_
    obtain ⟨found, hfound, rfl⟩ := List.mem_map.mp ho
    obtain ⟨b, -, rfl⟩ := List.mem_map.mp hfound
    exact scan.isSubcommand_splice _

/-- Without bindings nothing is offered but an error. -/
theorem suggest_of_nil (backend : Backend m) (text : String) (h : s.bindings = []) :
    ∃ message, s.suggest backend text = pure [Suggestion.ofError text message] := by
  have hmatch : s.matchCommand text .autocomplete = (Scan.ofText text).fail .noBindings := by
    show (Scan.ofText text).matchBinding s.bindings .autocomplete = _
    rw [h]
    rfl
  have hparse : s.parse backend text .autocomplete =
      pure (.ok ((Scan.ofText text).fail .noBindings)) := parse_of_formless hmatch rfl
  rw [suggest, hparse, pure_bind]
  exact ⟨_, rfl⟩

/-- A binding that is not a leaf has no form to be read. -/
theorem formSource_eq_none (h : ∀ b, scan.binding = some b → b.form = none ∧ b.isLeaf = false) :
    s.formSource scan = .none := by
  unfold formSource
  split
  · rename_i b _ hb
    obtain ⟨hform, hleaf⟩ := h b hb
    simp [hform, hleaf]
  · rfl

/-- The scan of a path with a word behind it, and what is offered there. -/
theorem suggest_behind {address : List Nat} {text : String}
    (htext : text.toList = '/' :: ((writeTokens parts).toList ++ word.toList))
    (hne : s.bindings ≠ [])
    (hvalid : Binding.treeDefect? s.bindings = none) (hforms : FormsAtLeaves s.bindings)
    (hmax : s.config.maxSuggestions = none)
    (hpath : Binding.pathAt? s.bindings address = some path)
    (hinner : ∀ b, path.getLast? = some b → b.isLeaf = false)
    (htokens : parts.map (fun p => Text.lowercase p.1) =
      path.map fun b => Text.lowercase b.label)
    (happart : StandApart .autocomplete word.toList parts) :
    ∃ offers, s.suggest backend text = pure offers ∧
      offers.filter Suggestion.isSubcommand =
        ((Binding.levelBelow s.bindings path).filter (Binding.isCompletion word)).map
          (Binding.offerBehind (writeTokens parts) path) := by
  obtain ⟨scan, hmatch⟩ : ∃ scan, s.matchCommand text .autocomplete = scan := ⟨_, rfl⟩
  have hbehind : scan.StandsBehind s.bindings path (writeTokens parts) word :=
    hmatch ▸ Scan.standsBehind_matchBinding htext hne hvalid hpath htokens happart
  -- the binding that the path leads to is no leaf, and so it has no form
  have hinterior : ∀ b, scan.binding = some b → b.form = none ∧ b.isLeaf = false := by
    intro b hb
    have hlast : path.getLast? = some b := hbehind.reached.binding.symm.trans hb
    have hleaf := hinner b hlast
    refine ⟨Option.not_isSome_iff_eq_none.mp fun hform => ?_, hleaf⟩
    rw [hforms address path b hpath hlast hform] at hleaf
    cases hleaf
  have hparse : s.parse backend text .autocomplete = pure (.ok scan) :=
    parse_of_formless hmatch (formSource_eq_none hinterior)
  obtain ⟨offers, hoffers, hfilter⟩ := filter_offers backend hbehind.state_eq hbehind.form_eq
    (Scan.offerExecution?_eq_none fun b hb => (hinterior b hb).2) hmax
  refine ⟨offers, ?_, hfilter.trans (hbehind.map_splice_offerCommands hvalid hpath)⟩
  rw [suggest_of_parse hparse hbehind.reached.error, hoffers]
  exact StateT.ext fun cache => by simp

/-- **Subcommands that are offered.**  In a tree without a defect where only leaves have inline
forms, take the address of a binding with subcommands, or that of the whole tree, tokens that answer
to the labels on the way to it, with blanks behind each of them, and a word.  Whatever the backend
is, the subcommands that are offered for this text are those whose label goes on as the word does,
in the order of the tree.  What is offered for one of them, with a blank behind it, is matched to it
in either mode, at the location of its parent with its own segment behind it. -/
theorem subcommands_of_suggest (backend : Backend m) {address : List Nat}
    (hvalid : Binding.treeDefect? s.bindings = none)
    (hforms : FormsAtLeaves s.bindings) (hmax : s.config.maxSuggestions = none)
    (hpath : Binding.pathAt? s.bindings address = some path)
    (hinner : ∀ b, path.getLast? = some b → b.isLeaf = false)
    (htokens : parts.map (fun p => Text.lowercase p.1) =
      path.map fun b => Text.lowercase b.label)
    (hgaps : ∀ p ∈ parts, p.2 ≠ "" ∧ IsGap p.2.toList) (hword : IsWord word.toList) :
    let text := "/" ++ writeTokens parts ++ word
    let offered := (Binding.levelBelow s.bindings path).filter (Binding.isCompletion word)
    (∃ offers, s.suggest backend text = pure offers ∧
      offers.filter Suggestion.isSubcommand =
        offered.map (Binding.offerBehind (writeTokens parts) path)) ∧
    ∀ b ∈ offered, ∀ mode,
      let complete := (b.offerBehind (writeTokens parts) path).complete
      let m := (Scan.ofText ("/" ++ complete ++ " ")).matchBinding s.bindings mode
      m.binding = some b ∧ m.HasReached s.bindings (path ++ [b]) ∧
        m.location = ((Scan.ofText text).matchBinding s.bindings .autocomplete).location ++ "/" ++
          b.locationSegment := by
  intro text offered
  have happart : StandApart .autocomplete word.toList parts :=
    .of_gaps (words_of_pathAt? hvalid hpath htokens) hgaps hword nofun
  have htext : text.toList = '/' :: ((writeTokens parts).toList ++ word.toList) := by
    simp [text]
  by_cases hne : s.bindings = []
  · -- without bindings there is no level, and nothing is offered but an error
    obtain ⟨message, hsuggest⟩ := suggest_of_nil backend text hne
    have hlevel : Binding.levelBelow s.bindings path = [] := by
      rw [hne] at hpath ⊢
      cases address with
      | nil =>
        cases hpath
        rfl
      | cons i address => cases hpath
    have hoffered : offered = [] := by
      show List.filter _ (Binding.levelBelow s.bindings path) = []
      rw [hlevel]
      rfl
    rw [hoffered]
    exact ⟨⟨_, hsuggest, rfl⟩, nofun⟩
  · refine ⟨suggest_behind htext hne hvalid hforms hmax hpath hinner htokens happart, ?_⟩
    intro b hb mode complete m
    have hreached : m.HasReached s.bindings (path ++ [b]) :=
      Scan.hasReached_complete mode hne hvalid hpath (List.mem_filter.mp hb).1 htokens hgaps
    refine ⟨hreached.binding.trans List.getLast?_concat, hreached, ?_⟩
    have htyped : ((Scan.ofText text).matchBinding s.bindings .autocomplete).HasReached s.bindings
        path := Scan.hasReached_writeTokens htext hne hvalid hpath htokens happart nofun
    rw [hreached.location, htyped.location, List.map_append, String.join_append]
    simp [String.append_assoc]

/-- Two of three subcommands begin with what is typed, and the second of them is taken. -/
theorem subcommands_of_suggest_issue :
    let issue : Binding := { label := "issue", form := some {} }
    let item : Binding := { label := "ITEM", location := "thing" }
    let jira : Binding := { label := "jira", bindings := [issue, { label := "link" }, item] }
    let s : Session := { bindings := [jira] }
    Binding.treeDefect? s.bindings = none ∧ FormsAtLeaves s.bindings ∧
    (∃ offers, s.suggest (.offline Id) "/Jira  I" = pure offers ∧
      (offers.filter Suggestion.isSubcommand).map (·.complete) = ["Jira  issue", "Jira  ITEM"]) ∧
    ∀ mode, let m := (Scan.ofText "/Jira  ITEM ").matchBinding s.bindings mode
      m.binding = some item ∧ m.location = "/jira/thing" := by
  intro issue item jira s
  have hvalid : Binding.treeDefect? s.bindings = none := by
    have hleaf (before : List String) (b : Binding) (rest : List Binding)
        (hlabel : Binding.labelDefect? ["jira"] before b.label = none)
        (hform : b.form.bind Form.defect? = none) (hbelow : b.bindings = [])
        (hrest : Binding.defectBelow? ["jira"] (before ++ [b.label]) rest = none) :
        Binding.defectBelow? ["jira"] before (b :: rest) = none :=
      Binding.defectBelow?_cons_eq_none_iff.mpr
        ⟨hlabel, hform, hbelow ▸ Binding.defectBelow?_nil, hrest⟩
    have hchildren : Binding.defectBelow? ["jira"] [] jira.bindings = none :=
      hleaf _ _ _ (by decide) (by decide) rfl <| hleaf _ _ _ (by decide) (by decide) rfl <|
        hleaf _ _ _ (by decide) (by decide) rfl Binding.defectBelow?_nil
    exact Binding.defectBelow?_cons_eq_none_iff.mpr
      ⟨by decide, by decide, hchildren, Binding.defectBelow?_nil⟩
  have hforms : FormsAtLeaves s.bindings := by
    intro address path b hpath hlast hform
    have hleaves : ∀ b ∈ jira.bindings, b.bindings = [] := by simp [jira, issue, item]
    cases Binding.pathTo_of_pathAt? hpath hlast with
    | single hmem =>
      rw [List.mem_singleton.mp hmem] at hform
      cases hform
    | cons hmem hbelow =>
      rw [List.mem_singleton.mp hmem] at hbelow
      cases hbelow with
      | single hmem => exact List.isEmpty_iff.mpr (hleaves b hmem)
      | cons hmem hbelow =>
        rw [hleaves _ hmem] at hbelow
        cases hbelow with
        | single hmem => cases hmem
        | cons hmem _ => cases hmem
  have hpath : Binding.pathAt? s.bindings [0] = some [jira] := rfl
  have htokens : [("Jira", "  ")].map (fun p => Text.lowercase p.1) =
      [jira].map fun b => Text.lowercase b.label := by decide
  have hword : IsWord "I".toList := by decide
  obtain ⟨⟨offers, hsuggest, hoffers⟩, htaken⟩ :=
    subcommands_of_suggest (.offline Id) hvalid hforms rfl hpath
      (by simp [jira, Binding.isLeaf]) htokens (by decide) hword
  refine ⟨hvalid, hforms, ⟨offers, hsuggest, ?_⟩, fun mode => ?_⟩
  · rw [hoffers, List.map_map]
    decide
  · have hitem : item ∈ (Binding.levelBelow s.bindings [jira]).filter (Binding.isCompletion "I") :=
      List.mem_filter.mpr ⟨.tail _ (.tail _ (.head _)), by decide⟩
    obtain ⟨hbinding, hreached, -⟩ := htaken item hitem mode
    exact ⟨hbinding, hreached.location.trans (by decide)⟩

end Session

end SlashCommand
