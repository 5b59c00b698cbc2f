import SlashCommand.Proofs.Scan.Descents
import SlashCommand.Proofs.Text.Words

/-!
# The deepest match

The first phase of a scan cuts the text into tokens while it descends the command tree, and stops at
the first token that is no label.  Here the two things it does at once are told apart.

* `tokensFrom` cuts a text into tokens, without looking at the tree.  The first token stands right
  behind the slash and may be empty; a token at the very end of the text is marked as not `ended`,
  because in a command that is being typed it may still grow.
* `IsChain` is a descent along given words, without looking at the text, and `deepestChain` is the
  longest one (`IsLongestChain.eq`).

`descend_command` puts them together again: the loop enters the bindings of the longest chain along
the tokens, in order, and what it leaves to the parameters begins at the first token that is not in
the chain.  Everything that is known about the matched binding is read off the chain.
-/

namespace SlashCommand

/-! ## Tokens -/

/-- A token of a command: where it begins, its text, and whether a blank follows it. -/
structure CommandToken where
  start : Nat
  text : String
  ended : Bool
deriving DecidableEq, Repr

/-- The tokens of a text that begins at the position `start`. -/
def tokensFrom (start : Nat) (text : List Char) : List CommandToken :=
  ⟨start, String.ofList (firstWord text), !(behindWord text).isEmpty⟩ ::
    if _further : nextWord text ≠ [] then
      tokensFrom (start + (firstWord text).length + (gapBehind text).length) (nextWord text)
    else []
termination_by text.length
decreasing_by exact length_nextWord_lt _further

/-- The first token of a text. -/
def firstToken (start : Nat) (text : List Char) : CommandToken :=
  ⟨start, String.ofList (firstWord text), !(behindWord text).isEmpty⟩

theorem tokensFrom_of_last {start : Nat} {text : List Char} (h : nextWord text = []) :
    tokensFrom start text = [firstToken start text] := by
  rw [tokensFrom, dif_neg (not_not_intro h)]
  rfl

theorem tokensFrom_of_next {start : Nat} {text : List Char} (h : nextWord text ≠ []) :
    tokensFrom start text = firstToken start text ::
      tokensFrom (start + (firstWord text).length + (gapBehind text).length) (nextWord text) := by
  rw [tokensFrom, dif_pos h]
  rfl

/-- A text that begins with a word, and behind that with blanks unless it ends, has the word as its
first token. -/
theorem tokensFrom_append {start : Nat} {word gap text : List Char}
    (hword : IsWord word) (hgap : IsGap gap) (hnil : gap = [] → text = [])
    (htext : StartsPlain text) :
    tokensFrom start (word ++ (gap ++ text)) =
      ⟨start, String.ofList word, !(gap ++ text).isEmpty⟩ ::
        if text = [] then [] else tokensFrom (start + word.length + gap.length) text := by
  obtain ⟨hfirst, hbehind, hblanks, hnext⟩ := parts_append hword hgap hnil htext
  rw [tokensFrom, hfirst, hbehind, hblanks, hnext]
  by_cases hne : text = []
  · rw [dif_neg (not_not_intro hne), if_pos hne]
  · rw [dif_pos hne, if_neg hne]

/-- The tokens that are known to be complete: while a command is typed, its last token is complete
only if a blank follows it. -/
def completeTokens : ScanMode → List CommandToken → List CommandToken
  | .execute, tokens => tokens
  | .autocomplete, tokens => tokens.filter (·.ended)

/-! ## Chains of bindings -/

/-- A chain of bindings, each the first below the one before whose label is the next word, in any
case. -/
inductive IsChain : List Binding → List String → List Binding → Prop
  | nil {bindings : List Binding} {words : List String} : IsChain bindings words []
  | cons {bindings chain : List Binding} {b : Binding} {word : String} {words : List String} :
    bindings.find? (fun b => Text.lowercase b.label == Text.lowercase word) = some b →
      IsChain b.bindings words chain → IsChain bindings (word :: words) (b :: chain)

/-- A chain that no other chain along the same words exceeds. -/
structure IsLongestChain (bindings : List Binding) (words : List String) (chain : List Binding) :
    Prop where
  isChain : IsChain bindings words chain
  longest : ∀ chain', IsChain bindings words chain' → chain'.length ≤ chain.length

/-- The chain that goes on as long as there is a binding for the next word. -/
def deepestChain (bindings : List Binding) : List String → List Binding
  | [] => []
  | word :: words =>
    match Binding.find? bindings word with
    | some b => b :: deepestChain b.bindings words
    | none => []

theorem deepestChain_cons_of_some {bindings : List Binding} {word : String} {words : List String}
    {b : Binding} (h : Binding.find? bindings word = some b) :
    deepestChain bindings (word :: words) = b :: deepestChain b.bindings words := by
  rw [deepestChain, h]

theorem deepestChain_cons_of_none {bindings : List Binding} {word : String} {words : List String}
    (h : Binding.find? bindings word = none) : deepestChain bindings (word :: words) = [] := by
  rw [deepestChain, h]

theorem isChain_deepestChain (bindings : List Binding) (words : List String) :
    IsChain bindings words (deepestChain bindings words) := by
  induction words generalizing bindings with
  | nil => exact .nil
  | cons word words ih =>
    cases h : Binding.find? bindings word with
    | none =>
      rw [deepestChain_cons_of_none h]
      exact .nil
    | some b =>
      rw [deepestChain_cons_of_some h]
      exact .cons h (ih b.bindings)

/-- Every chain is a beginning of the deepest one. -/
theorem IsChain.isPrefix_deepestChain {bindings chain : List Binding} {words : List String}
    (h : IsChain bindings words chain) : chain <+: deepestChain bindings words := by
  induction h with
  | nil => exact List.nil_prefix
  | cons hb _ ih =>
    rw [deepestChain_cons_of_some hb]
    exact (List.cons_prefix_cons.mpr ⟨rfl, ih⟩)

theorem isLongestChain_deepestChain (bindings : List Binding) (words : List String) :
    IsLongestChain bindings words (deepestChain bindings words) :=
  ⟨isChain_deepestChain bindings words, fun _ h => h.isPrefix_deepestChain.length_le⟩

/-- The longest chain is unique. -/
theorem IsLongestChain.eq {bindings chain : List Binding} {words : List String}
    (h : IsLongestChain bindings words chain) : chain = deepestChain bindings words := by
  refine h.isChain.isPrefix_deepestChain.eq_of_length_le ?_
  exact h.longest _ (isChain_deepestChain bindings words)

namespace Scan

/-! ## The steps of the descent -/

variable {mode : ScanMode} {s : Scan} {w r : List Char}

/-- The first word ahead is read into the token. -/
theorem descend_word (state : s.state = .command) (h : s.ahead = w ++ r)
    (hw : IsWord w) : descend mode s = descend mode (s.pushAll w) := by
  refine run_pushAll ?_ state h hw
  intro t c r' hstate hahead hc
  simp [descentStep, hstate, peek?_of_ahead hahead, hc]

/-- A token at the end of the text ends the descent while it is being typed. -/
theorem descend_typing (state : s.state = .command) (h : s.ahead = []) :
    descend .autocomplete s = s := by
  refine run_of_stop ?_
  simp [descentStep, state, peek?_of_ahead_nil h]

/-- A complete token is looked up. -/
theorem descend_lookup (state : s.state = .command)
    (h : s.ahead = [] ∧ mode = .execute ∨ ∃ c r, s.ahead = c :: r ∧ Text.isBlank c = true) :
    descend mode s = descend mode (s.goto .endCommand) := by
  refine run_of_next ?_
  rcases h with ⟨h, rfl⟩ | ⟨c, r, h, hc⟩
  · simp [descentStep, state, peek?_of_ahead_nil h]
  · simp [descentStep, state, peek?_of_ahead h, hc]

/-- A token that is no label ends the descent. -/
theorem descend_none (h : Binding.find? s.candidates s.token = none) :
    descend mode (s.goto .endCommand) = s.goto .endCommand := by
  refine run_of_stop ?_
  simp only [descentStep, goto]
  rw [h]

/-- A token that is a label leads to its binding, and from there to the end of the blanks behind
the token. -/
theorem descend_some {b : Binding} (h : Binding.find? s.candidates s.token = some b)
    (hahead : s.ahead = w ++ r) (hw : IsGap w) :
    descend mode (s.goto .endCommand) =
      descend mode (((s.enter b).goto .commandSeparator).skip w) := by
  have hstep : descentStep mode (s.goto .endCommand) =
      .next ((s.enter b).goto .commandSeparator) := by
    simp only [descentStep, goto]
    rw [h]
    rfl
  have hskip (t : Scan) (c : Char) (r' : List Char) (hstate : t.state = .commandSeparator)
      (ht : t.ahead = c :: r') (hc : Text.isBlank c = true) :
      descentStep mode t = .next t.advance := by
    simp [descentStep, hstate, peek?_of_ahead ht, hc]
  exact (run_of_next hstep).trans (run_skip hskip rfl hahead hw)

/-- At the end of the text the descent ends with an empty token. -/
theorem descend_separator_nil (state : s.state = .commandSeparator) (h : s.ahead = []) :
    descend mode s = s.beginToken.goto .command := by
  refine run_of_stop ?_
  simp [descentStep, state, peek?_of_ahead_nil h]

/-- Behind the blanks a new token begins. -/
theorem descend_separator_cons {c : Char} (state : s.state = .commandSeparator)
    (h : s.ahead = c :: r) (hc : Text.isBlank c = false) :
    descend mode s = descend mode (s.beginToken.goto .command) := by
  refine run_of_next ?_
  simp [descentStep, state, peek?_of_ahead h, hc]

/-! ## The whole descent -/

/-- The scan in another place, with all that it has found. -/
def relocate (s : Scan) (state : ScanState) (cursor : Nat) (token : String) (tokenStart : Nat) :
    Scan :=
  { s with state, cursor, token, tokenStart }

/-- What a scan finds does not depend on where it stands. -/
theorem foldl_enter_relocate (chain : List Binding) (s : Scan) (state : ScanState) (cursor : Nat)
    (token : String) (tokenStart : Nat) :
    chain.foldl enter (s.relocate state cursor token tokenStart) =
      (chain.foldl enter s).relocate state cursor token tokenStart := by
  induction chain generalizing s with
  | nil => rfl
  | cons b chain ih => exact ih (s.enter b)

/-- How a descent that found `chain` ends: behind its last token, or, if that is still being typed,
in it. -/
structure DescentEnd (mode : ScanMode) (s : Scan) (text : List Char) (chain : List Binding)
    (state : ScanState) (cursor : Nat) (token : String) : Prop where
  state_cases : state = .command ∨ state = .endCommand
  typing : mode = .autocomplete → behindWord text = [] → state = .command
  unmatched : chain = [] → ¬ (mode = .autocomplete ∧ behindWord text = []) →
    state = .endCommand ∧ cursor = s.cursor + (firstWord text).length ∧
      token = String.ofList (firstWord text)

/-- Where the first token that is not in a chain begins. -/
def parametersStart (tokens : List CommandToken) (chain : List Binding) (length : Nat) : Nat :=
  ((tokens[chain.length]?).map (·.start)).getD length

/-- The words that a descent looks up. -/
def lookedUp (mode : ScanMode) (tokens : List CommandToken) : List String :=
  (completeTokens mode tokens).map (·.text)

theorem lookedUp_nil (mode : ScanMode) : lookedUp mode [] = [] := by
  cases mode with
  | execute => rfl
  | autocomplete => rfl

theorem lookedUp_cons_of_complete {mode : ScanMode} {token : CommandToken}
    {tokens : List CommandToken} (h : mode = .execute ∨ token.ended = true) :
    lookedUp mode (token :: tokens) = token.text :: lookedUp mode tokens := by
  cases mode with
  | execute => rfl
  | autocomplete =>
    have hended : token.ended = true := h.resolve_left (by simp)
    rw [lookedUp, completeTokens, List.filter_cons_of_pos hended]
    rfl

/-- A word read from the beginning of a token is the token. -/
theorem pushAll_of_empty (token : s.token = "") (start : s.tokenStart = s.cursor) (w : List Char) :
    s.pushAll w = s.relocate s.state (s.cursor + w.length) (String.ofList w) s.cursor := by
  rw [pushAll, relocate, token, String.empty_append, ← start]

/-- The text ahead of a token begins with its word. -/
theorem ahead_pushAll_firstWord {text : List Char} (h : s.ahead = text) :
    (s.pushAll (firstWord text)).ahead = behindWord text :=
  ahead_pushAll (h.trans (firstWord_append_behindWord text).symm)

/-- A token that is still being typed is read, and the descent ends. -/
theorem descend_command_typing {text : List Char} (state : s.state = .command)
    (h : s.ahead = text) (hbehind : behindWord text = []) :
    descend .autocomplete s = s.pushAll (firstWord text) := by
  rw [descend_word state (h.trans (firstWord_append_behindWord text).symm)
    (isWord_firstWord text)]
  exact descend_typing state ((ahead_pushAll_firstWord h).trans hbehind)

/-- A complete token is read and looked up. -/
theorem descend_command_complete {text : List Char} (state : s.state = .command)
    (h : s.ahead = text) (hcomplete : mode = .execute ∨ behindWord text ≠ []) :
    descend mode s = descend mode ((s.pushAll (firstWord text)).goto .endCommand) := by
  rw [descend_word state (h.trans (firstWord_append_behindWord text).symm)
    (isWord_firstWord text)]
  refine descend_lookup state ?_
  have hahead := ahead_pushAll_firstWord h
  have hbehind := startsBlank_behindWord text
  cases hb : behindWord text with
  | nil => exact .inl ⟨hahead.trans hb, hcomplete.resolve_right fun hne => hne hb⟩
  | cons c r =>
    rw [hb] at hbehind
    exact .inr ⟨c, r, hahead.trans hb, hbehind c rfl⟩

/-- A token that is a label leads into its binding, and to the next token if there is one. -/
theorem descend_command_enter {text : List Char} {b : Binding} (state : s.state = .command)
    (token : s.token = "") (h : s.ahead = text) (hcomplete : mode = .execute ∨ behindWord text ≠ [])
    (hfind : Binding.find? s.candidates (String.ofList (firstWord text)) = some b) :
    let p := s.cursor + (firstWord text).length + (gapBehind text).length
    let t := (s.enter b).relocate .command p "" p
    t.ahead = nextWord text ∧
      descend mode s = if nextWord text = [] then t else descend mode t := by
  have hbehind : (s.pushAll (firstWord text)).ahead = gapBehind text ++ nextWord text :=
    (ahead_pushAll_firstWord h).trans (gapBehind_append_nextWord text).symm
  have htoken : (s.pushAll (firstWord text)).token = String.ofList (firstWord text) := by
    show s.token ++ String.ofList (firstWord text) = _
    rw [token, String.empty_append]
  have hfind' : Binding.find? (s.pushAll (firstWord text)).candidates
      (s.pushAll (firstWord text)).token = some b := by
    rw [htoken]
    exact hfind
  -- the scan behind the blanks
  have hnext := ahead_skip hbehind
  refine ⟨hnext, ?_⟩
  rw [descend_command_complete state h hcomplete,
    descend_some hfind' hbehind (isGap_gapBehind text)]
  have hplain := startsPlain_nextWord text
  cases hn : nextWord text with
  | nil =>
    rw [if_pos rfl]
    exact descend_separator_nil rfl (hnext.trans hn)
  | cons c r =>
    rw [hn] at hplain
    rw [if_neg (List.cons_ne_nil c r)]
    exact descend_separator_cons rfl (hnext.trans hn) (hplain c rfl)

/-- The descent from the beginning of a token enters the bindings of the deepest chain along the
tokens ahead, and puts the first token that is not in the chain aside for the parameters. -/
def DescendsAlong (mode : ScanMode) (s : Scan) (text : List Char) : Prop :=
  ∃ (chain : List Binding) (state : ScanState) (cursor : Nat) (token : String),
    chain = deepestChain s.candidates (lookedUp mode (tokensFrom s.cursor text)) ∧
    descend mode s = (chain.foldl enter s).relocate state cursor token
      (parametersStart (tokensFrom s.cursor text) chain s.text.length) ∧
    DescentEnd mode s text chain state cursor token

variable {text : List Char} {b : Binding}

/-- A token that is still being typed is not looked up. -/
theorem descendsAlong_typing (state : s.state = .command) (token : s.token = "")
    (start : s.tokenStart = s.cursor) (h : s.ahead = text) (hnil : behindWord text = []) :
    DescendsAlong .autocomplete s text := by
  refine ⟨[], .command, s.cursor + (firstWord text).length, String.ofList (firstWord text),
    ?_, ?_, ⟨.inl rfl, fun _ _ => rfl, fun _ hnot => absurd ⟨rfl, hnil⟩ hnot⟩⟩
  · rw [tokensFrom]
    simp [hnil, nextWord, lookedUp, completeTokens, deepestChain]
  · rw [descend_command_typing state h hnil, pushAll_of_empty token start, state, tokensFrom]
    rfl

/-- No binding has the token as its label. -/
theorem descendsAlong_none (state : s.state = .command) (token : s.token = "")
    (start : s.tokenStart = s.cursor) (h : s.ahead = text)
    (hcomplete : mode = .execute ∨ behindWord text ≠ [])
    (hfind : Binding.find? s.candidates (String.ofList (firstWord text)) = none) :
    DescendsAlong mode s text := by
  have hread := pushAll_of_empty token start (firstWord text)
  refine ⟨[], .endCommand, _, _, ?_, ?_,
    ⟨.inr rfl, fun hmode hnil => ?_, fun _ _ => ⟨rfl, rfl, rfl⟩⟩⟩
  · rw [tokensFrom, lookedUp_cons_of_complete (by simpa using hcomplete),
      deepestChain_cons_of_none hfind]
  · rw [descend_command_complete state h hcomplete, descend_none (by rw [hread]; exact hfind),
      hread, tokensFrom]
    rfl
  · rcases hcomplete with hexecute | hbehind
    · rw [hmode] at hexecute
      cases hexecute
    · exact absurd hnil hbehind

/-- The token is a label, and the descent of what stands behind it is known. -/
theorem descendsAlong_some (state : s.state = .command) (token : s.token = "")
    (hle : s.cursor ≤ s.text.length) (h : s.ahead = text)
    (hcomplete : mode = .execute ∨ behindWord text ≠ [])
    (hfind : Binding.find? s.candidates (String.ofList (firstWord text)) = some b)
    (ih : nextWord text ≠ [] →
      let position := s.cursor + (firstWord text).length + (gapBehind text).length
      let t := (s.enter b).relocate .command position "" position
      t.cursor ≤ t.text.length → t.ahead = nextWord text →
        DescendsAlong mode t (nextWord text)) :
    DescendsAlong mode s text := by
  have hend (st : ScanState) (hmode : mode = .autocomplete) (hnil : behindWord text = []) :
      st = .command := by
    rcases hcomplete with hexecute | hbehind
    · rw [hmode] at hexecute
      cases hexecute
    · exact absurd hnil hbehind
  have hlooked (tokens : List CommandToken) :
      deepestChain s.candidates (lookedUp mode (firstToken s.cursor text :: tokens)) =
        b :: deepestChain b.bindings (lookedUp mode tokens) := by
    rw [lookedUp_cons_of_complete (by simpa [firstToken] using hcomplete)]
    exact deepestChain_cons_of_some hfind
  obtain ⟨hahead, hrun⟩ := descend_command_enter state token h hcomplete hfind
  have hlength := length_eq_words text
  have hrest : text.length = s.text.length - s.cursor := by
    rw [← h, ahead, List.length_drop]
  by_cases hnext : nextWord text = []
  · rw [if_pos hnext] at hrun
    rw [hnext, List.length_nil] at hlength
    have hcursor : s.cursor + (firstWord text).length + (gapBehind text).length =
        s.text.length := by omega
    refine ⟨[b], .command, s.text.length, "", ?_, ?_,
      ⟨.inl rfl, hend _, fun hnil => absurd hnil (List.cons_ne_nil _ _)⟩⟩
    · rw [tokensFrom_of_last hnext, hlooked, lookedUp_nil]
      rfl
    · rw [hrun, hcursor, tokensFrom_of_last hnext]
      rfl
  · rw [if_neg hnext] at hrun
    obtain ⟨chain, st, cursor, tok, hchain, hdescend, hdone⟩ :=
      ih hnext (by show _ + _ + _ ≤ s.text.length; omega) hahead
    refine ⟨b :: chain, st, cursor, tok, ?_, ?_,
      ⟨hdone.state_cases, hend _, fun hnil => absurd hnil (List.cons_ne_nil _ _)⟩⟩
    · rw [hchain, tokensFrom_of_next hnext, hlooked]
      rfl
    · rw [hrun, hdescend, foldl_enter_relocate, tokensFrom_of_next hnext]
      rfl

/-- Every descent from the beginning of a token goes along the deepest chain. -/
theorem descend_command (state : s.state = .command) (token : s.token = "")
    (start : s.tokenStart = s.cursor) (hle : s.cursor ≤ s.text.length) (h : s.ahead = text) :
    DescendsAlong mode s text := by
  induction hn : text.length using Nat.strongRecOn generalizing s text with
  | ind n ih =>
    by_cases htyping : mode = .autocomplete ∧ behindWord text = []
    · obtain ⟨rfl, hnil⟩ := htyping
      exact descendsAlong_typing state token start h hnil
    · have hcomplete : mode = .execute ∨ behindWord text ≠ [] := by
        cases mode with
        | execute => exact .inl rfl
        | autocomplete => exact .inr fun hnil => htyping ⟨rfl, hnil⟩
      cases hfind : Binding.find? s.candidates (String.ofList (firstWord text)) with
      | none => exact descendsAlong_none state token start h hcomplete hfind
      | some b =>
        -- the binding is entered, and the descent goes on behind the blanks
        exact descendsAlong_some state token hle h hcomplete hfind fun hnext hle' hahead =>
          ih (nextWord text).length (hn ▸ length_nextWord_lt hnext) rfl rfl rfl hle' hahead rfl

/-! ## What the chain determines -/

theorem binding_foldl_enter (chain : List Binding) (s : Scan) :
    (chain.foldl enter s).binding = chain.getLast?.or s.binding := by
  rcases chain.eq_nil_or_concat with rfl | ⟨chain, b, rfl⟩
  · rfl
  · rw [List.concat_eq_append, List.foldl_append, List.getLast?_concat]
    rfl

theorem candidates_foldl_enter (chain : List Binding) (s : Scan) :
    (chain.foldl enter s).candidates = (chain.getLast?.map (·.bindings)).getD s.candidates := by
  rcases chain.eq_nil_or_concat with rfl | ⟨chain, b, rfl⟩
  · rfl
  · rw [List.concat_eq_append, List.foldl_append, List.getLast?_concat]
    rfl

/-- The location has a segment for each binding of the chain. -/
theorem location_foldl_enter (chain : List Binding) (s : Scan) :
    (chain.foldl enter s).location =
      s.location ++ String.join (chain.map fun b => "/" ++ b.locationSegment) := by
  induction chain generalizing s with
  | nil => simp
  | cons b chain ih =>
    rw [List.foldl_cons, ih]
    show s.location ++ "/" ++ b.locationSegment ++ _ = _
    rw [List.map_cons, String.join_cons]
    simp only [String.append_assoc]

/-- The app is that of the last binding of the chain that names one. -/
theorem appId_foldl_enter (chain : List Binding) (s : Scan) :
    (chain.foldl enter s).appId =
      ((chain.map (·.appId)).filter (· ≠ "")).getLast?.getD s.appId := by
  induction chain generalizing s with
  | nil => rfl
  | cons b chain ih =>
    rw [List.foldl_cons, ih, List.map_cons]
    by_cases hb : b.appId = ""
    · rw [List.filter_cons_of_neg (by simpa using hb)]
      simp [enter, hb]
    · rw [List.filter_cons_of_pos (by simpa using hb), List.getLast?_cons]
      have happ : (s.enter b).appId = b.appId := by simp [enter, hb]
      rw [happ]
      rfl

/-! ## Matching a binding -/

/-- A descent begins behind the slash. -/
def behindSlash (command : String) (bindings : List Binding) : Scan :=
  (({ ofText command with candidates := bindings }).advance.beginToken).goto .command

variable {command : String} {text : List Char} {bindings chain : List Binding}

theorem ahead_behindSlash (h : command.toList = '/' :: text) :
    (behindSlash command bindings).ahead = text := by
  have hahead : ({ ofText command with candidates := bindings } : Scan).ahead = '/' :: text := h
  exact ahead_advance hahead

/-- The descent of a command enters the deepest chain along its tokens. -/
theorem descend_behindSlash (mode : ScanMode) (bindings : List Binding)
    (h : command.toList = '/' :: text) :
    ∃ (chain : List Binding) (state : ScanState) (cursor : Nat) (token : String),
      chain = deepestChain bindings (lookedUp mode (tokensFrom 1 text)) ∧
      descend mode (behindSlash command bindings) =
        (chain.foldl enter (behindSlash command bindings)).relocate state cursor token
          (parametersStart (tokensFrom 1 text) chain command.length) ∧
      DescentEnd mode (behindSlash command bindings) text chain state cursor token := by
  have hle : (behindSlash command bindings).cursor ≤
      (behindSlash command bindings).text.length := by
    show 1 ≤ command.toList.length
    rw [h, List.length_cons]
    omega
  exact descend_command rfl rfl rfl hle (ahead_behindSlash h)

/-- The first step reads the slash. -/
theorem descend_ofText (h : command.toList = '/' :: text) :
    descend mode { ofText command with candidates := bindings } =
      descend mode (behindSlash command bindings) := by
  refine run_of_next ?_
  have hahead : ({ ofText command with candidates := bindings } : Scan).ahead = '/' :: text := h
  rw [descentStep, peek?_of_ahead hahead]
  rfl

/-- The scan that `matchBinding` makes of the outcome of a descent. -/
def matched (mode : ScanMode) (s : Scan) : Scan :=
  if s.isFailed ∨ s.binding.isSome ∨ mode = .autocomplete ∧ s.state = .command then s
  else s.fail (.noMatchingBinding s.token)

theorem matchBinding_ofText (h : command.toList = '/' :: text) (hne : bindings ≠ []) :
    (ofText command).matchBinding bindings mode =
      matched mode (descend mode (behindSlash command bindings)) := by
  rw [← descend_ofText h, matchBinding, if_neg (by exact Bool.false_ne_true),
    if_neg (by simpa using hne)]
  rfl

theorem DescentEnd.isFailed {s : Scan} {state : ScanState} {cursor : Nat} {token : String}
    (h : DescentEnd mode s text chain state cursor token) : state.isFailed = false := by
  rcases h.state_cases with rfl | rfl
  · rfl
  · rfl

/-- A command whose first token is no label matches nothing, which is an error unless that token is
still being typed. -/
theorem matchBinding_of_nil (h : command.toList = '/' :: text) (hne : bindings ≠ [])
    (hchain : deepestChain bindings (lookedUp mode (tokensFrom 1 text)) = []) :
    let t := (ofText command).matchBinding bindings mode
    (mode = .autocomplete ∧ behindWord text = [] → t.isFailed = false) ∧
      (¬ (mode = .autocomplete ∧ behindWord text = []) →
        t.state = .failed ⟨.noMatchingBinding (String.ofList (firstWord text)),
          1 + (firstWord text).length⟩) := by
  obtain ⟨chain, state, cursor, token, hdeepest, hrun, hend⟩ :=
    descend_behindSlash mode bindings h
  obtain rfl : chain = [] := hdeepest.trans hchain
  rw [matchBinding_ofText h hne, hrun, matched]
  refine ⟨fun htyping => ?_, fun htyping => ?_⟩
  · rw [if_pos (.inr (.inr ⟨htyping.1, hend.typing htyping.1 htyping.2⟩))]
    exact hend.isFailed
  · obtain ⟨rfl, rfl, rfl⟩ := hend.unmatched rfl htyping
    rw [if_neg]
    · rfl
    · rintro (hfailed | hsome | ⟨-, hstate⟩)
      · exact absurd hfailed (by exact Bool.false_ne_true)
      · exact absurd hsome (by exact Bool.false_ne_true)
      · exact absurd hstate (by exact ScanState.noConfusion)

/-- A command whose first tokens are labels matches the deepest binding of their chain. -/
theorem matchBinding_of_chain {deepest : Binding} (h : command.toList = '/' :: text)
    (hne : bindings ≠ [])
    (hchain : chain = deepestChain bindings (lookedUp mode (tokensFrom 1 text)))
    (hlast : chain.getLast? = some deepest) :
    ∃ (state : ScanState) (cursor : Nat) (token : String), state.isFailed = false ∧
      (ofText command).matchBinding bindings mode =
        (chain.foldl enter (behindSlash command bindings)).relocate state cursor token
          (parametersStart (tokensFrom 1 text) chain command.length) := by
  obtain ⟨chain', state, cursor, token, hdeepest, hrun, hend⟩ :=
    descend_behindSlash mode bindings h
  obtain rfl : chain' = chain := hdeepest.trans hchain.symm
  refine ⟨state, cursor, token, hend.isFailed, ?_⟩
  have hbinding : ((chain'.foldl enter (behindSlash command bindings)).relocate state cursor token
      (parametersStart (tokensFrom 1 text) chain' command.length)).binding.isSome = true := by
    show (chain'.foldl enter (behindSlash command bindings)).binding.isSome = true
    rw [binding_foldl_enter, hlast]
    rfl
  rw [matchBinding_ofText h hne, hrun, matched]
  exact if_pos (.inr (.inl hbinding))

/-- **Deepest match.**  A command that begins with a slash is resolved along the longest chain of
labels among its tokens.  Without any label it fails with its first token, unless that token is the
whole text and still being typed.  Otherwise the scan holds the last binding of the chain, with the
location, the app and the candidates that belong to it, and its parameters start at the first token
that is not in the chain. -/
theorem matchBinding_deepest (h : command.toList = '/' :: text) (hne : bindings ≠ [])
    (hchain : IsLongestChain bindings (lookedUp mode (tokensFrom 1 text)) chain) :
    let t := (ofText command).matchBinding bindings mode
    (chain = [] →
      (mode = .autocomplete ∧ behindWord text = [] → t.isFailed = false) ∧
      (¬ (mode = .autocomplete ∧ behindWord text = []) →
        t.state = .failed ⟨.noMatchingBinding (String.ofList (firstWord text)),
          1 + (firstWord text).length⟩)) ∧
    ∀ deepest, chain.getLast? = some deepest →
      t.isFailed = false ∧ t.binding = some deepest ∧
      t.location = String.join (chain.map fun b => "/" ++ b.locationSegment) ∧
      t.appId = ((chain.map (·.appId)).filter (· ≠ "")).getLast?.getD "" ∧
      t.candidates = deepest.bindings ∧
      t.tokenStart = parametersStart (tokensFrom 1 text) chain command.length := by
  refine ⟨fun hnil => matchBinding_of_nil h hne (hchain.eq.symm.trans hnil), ?_⟩
  intro deepest hlast
  obtain ⟨state, cursor, token, hstate, heq⟩ := matchBinding_of_chain h hne hchain.eq hlast
  rw [heq]
  refine ⟨hstate, ?_, ?_, ?_, ?_, rfl⟩
  · show (chain.foldl enter (behindSlash command bindings)).binding = _
    rw [binding_foldl_enter, hlast]
    rfl
  · show (chain.foldl enter (behindSlash command bindings)).location = _
    rw [location_foldl_enter]
    exact String.empty_append
  · exact appId_foldl_enter chain (behindSlash command bindings)
  · show (chain.foldl enter (behindSlash command bindings)).candidates = _
    rw [candidates_foldl_enter, hlast]
    rfl

/-- A command two labels deep, whose second binding has a location of its own and no app. -/
theorem matchBinding_deepest_issue :
    let issue : Binding := { label := "issue", location := "tickets" }
    let jira : Binding := { label := "jira", appId := "app", bindings := [issue] }
    let command := "/JIRA  issue new"
    let text := "JIRA  issue new".toList
    let t := (ofText command).matchBinding [jira] .execute
    command.toList = '/' :: text ∧ [jira] ≠ [] ∧
      IsLongestChain [jira] (lookedUp .execute (tokensFrom 1 text)) [jira, issue] ∧
      t.isFailed = false ∧ t.binding = some issue ∧ t.location = "/jira/tickets" ∧
      t.appId = "app" ∧ t.candidates = [] ∧ t.tokenStart = 13 := by
  intro issue jira command text t
  have htokens : tokensFrom 1 text =
      [⟨1, "JIRA", true⟩, ⟨7, "issue", true⟩, ⟨13, "new", false⟩] := by
    have htext : text = "JIRA".toList ++ ([' ', ' '] ++
        ("issue".toList ++ ([' '] ++ ("new".toList ++ ([] ++ []))))) := by
      decide
    rw [htext, tokensFrom_append (by decide) (by decide) (by decide) (by decide),
      if_neg (by decide), tokensFrom_append (by decide) (by decide) (by decide) (by decide),
      if_neg (by decide), tokensFrom_append (by decide) (by decide) (by decide) (by decide)]
    rfl
  have hslash : command.toList = '/' :: text := by decide
  have hne : [jira] ≠ [] := List.cons_ne_nil _ _
  have hchain : deepestChain [jira] (lookedUp .execute (tokensFrom 1 text)) = [jira, issue] := by
    have hjira : Binding.find? [jira] "JIRA" = some jira := List.find?_cons_of_pos (by decide)
    have hissue : Binding.find? [issue] "issue" = some issue :=
      List.find?_cons_of_pos (by decide)
    rw [htokens]
    show deepestChain [jira] ["JIRA", "issue", "new"] = _
    rw [deepestChain_cons_of_some hjira]
    show jira :: deepestChain [issue] ["issue", "new"] = _
    rw [deepestChain_cons_of_some hissue]
    rfl
  have hlongest : IsLongestChain [jira] (lookedUp .execute (tokensFrom 1 text)) [jira, issue] := by
    rw [← hchain]
    exact isLongestChain_deepestChain _ _
  obtain ⟨hfailed, hbinding, hlocation, happ, hcandidates, hstart⟩ :=
    (matchBinding_deepest hslash hne hlongest).2 issue rfl
  refine ⟨hslash, hne, hlongest, hfailed, hbinding, hlocation.trans ?_, happ.trans ?_,
    hcandidates, hstart.trans ?_⟩
  · decide
  · decide
  · rw [htokens]
    rfl

end Scan

end SlashCommand
