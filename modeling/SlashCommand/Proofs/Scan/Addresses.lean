import SlashCommand.Proofs.Scan.RoundTrip
import SlashCommand.Proofs.Text.Lowercase

/-!
# Addresses of bindings

A place in the command tree is given by an address, which says at each level which binding to go to.
In a tree without a defect every place can be reached: the labels on the way to it, typed in any
case and with any blanks between them, lead the scan to it (`matchBinding_of_address`).  They lead
nowhere else, because the labels on the way determine the address (`address_eq_of_lowercase_eq`).

* `Binding.pathAt?`: the bindings on the way to an address.
* `writeTokens`: tokens with the blanks behind them.
* `descend_writeTokens`, `matchBinding_writeTokens`: where the scan of such tokens ends.  While the
  command is typed, a further word may stand behind them.
-/

namespace SlashCommand

/-! ## Addresses -/

namespace Binding

/-- The bindings on the way to an address, with the one that is there.  The empty address is that of
the whole tree. -/
def pathAt? (bindings : List Binding) : List Nat → Option (List Binding)
  | [] => some []
  | i :: address => bindings[i]?.bind fun b => (pathAt? b.bindings address).map (b :: ·)

/-- The bindings below the last one of a path, or all of them if the path is empty. -/
def levelBelow (bindings path : List Binding) : List Binding :=
  (path.getLast?.map (·.bindings)).getD bindings

variable {bindings path path' : List Binding} {b c : Binding} {i j : Nat}
  {address address' : List Nat} {labels before : List String}

theorem levelBelow_cons : levelBelow bindings (b :: path) = levelBelow b.bindings path := by
  unfold levelBelow
  rw [List.getLast?_cons]
  cases path.getLast? with
  | none => rfl
  | some c => rfl

theorem pathAt?_cons_eq_some_iff : pathAt? bindings (i :: address) = some path ↔
    ∃ b below, bindings[i]? = some b ∧ pathAt? b.bindings address = some below ∧
      path = b :: below := by
  simp only [pathAt?, Option.bind_eq_some_iff, Option.map_eq_some_iff]
  constructor
  · rintro ⟨b, hb, below, hbelow, rfl⟩
    exact ⟨b, below, hb, hbelow, rfl⟩
  · rintro ⟨b, below, hb, hbelow, rfl⟩
    exact ⟨b, hb, below, hbelow, rfl⟩

/-- One level down the way goes on with the binding that is chosen there. -/
theorem pathAt?_append_singleton (h : pathAt? bindings address = some path)
    (hb : (levelBelow bindings path)[i]? = some b) :
    pathAt? bindings (address ++ [i]) = some (path ++ [b]) := by
  induction address generalizing bindings path with
  | nil =>
    cases h
    exact pathAt?_cons_eq_some_iff.mpr ⟨b, [], hb, rfl, rfl⟩
  | cons j address ih =>
    obtain ⟨c, below, hc, hbelow, rfl⟩ := pathAt?_cons_eq_some_iff.mp h
    rw [levelBelow_cons] at hb
    exact pathAt?_cons_eq_some_iff.mpr ⟨c, below ++ [b], hc, ih hbelow hb, rfl⟩

/-- The way to an address is a path to the binding that is there. -/
theorem pathTo_of_pathAt? (h : pathAt? bindings address = some path)
    (hlast : path.getLast? = some b) : PathTo b bindings path := by
  induction address generalizing bindings path with
  | nil =>
    cases h
    cases hlast
  | cons i address ih =>
    obtain ⟨c, below, hc, hbelow, rfl⟩ := pathAt?_cons_eq_some_iff.mp h
    have hmem : c ∈ bindings := List.mem_of_getElem? hc
    cases below with
    | nil =>
      cases hlast
      exact .single hmem
    | cons d below => exact .cons hmem (ih hbelow (by rwa [List.getLast?_cons_cons] at hlast))

/-- The words that answer to the labels on the way to an address lead along it. -/
theorem isChain_of_pathAt? {words : List String} (h : pathAt? bindings address = some path)
    (hvalid : defectBelow? labels [] bindings = none)
    (hwords : words.map Text.lowercase = path.map fun b => Text.lowercase b.label) :
    IsChain bindings words path := by
  cases hlast : path.getLast? with
  | none =>
    rw [List.getLast?_eq_none_iff.mp hlast]
    exact .nil
  | some b => exact isChain_of_lowercase_eq (pathTo_of_pathAt? h hlast) hvalid hwords

/-- Among siblings without a defect a label stands at one place only. -/
theorem index_eq_of_lowercase_eq (hvalid : defectBelow? labels before bindings = none)
    (hb : bindings[i]? = some b) (hc : bindings[j]? = some c)
    (hlabel : Text.lowercase b.label = Text.lowercase c.label) : i = j := by
  obtain ⟨hi, rfl⟩ := List.getElem?_eq_some_iff.mp hb
  obtain ⟨hj, rfl⟩ := List.getElem?_eq_some_iff.mp hc
  have happart := List.pairwise_iff_getElem.mp (pairwise_label hvalid)
  rcases Nat.lt_trichotomy i j with hlt | heq | hlt
  · have hne := happart i j hi hj hlt
    rw [Text.eqIgnoreCase, hlabel, beq_self_eq_true] at hne
    cases hne
  · exact heq
  · have hne := happart j i hj hi hlt
    rw [Text.eqIgnoreCase, hlabel, beq_self_eq_true] at hne
    cases hne

/-- In a tree without a defect the labels on the way determine the address. -/
theorem address_eq_of_lowercase_eq (h : pathAt? bindings address = some path)
    (h' : pathAt? bindings address' = some path')
    (hvalid : defectBelow? labels [] bindings = none)
    (hlabels : path.map (fun b => Text.lowercase b.label) =
      path'.map fun b => Text.lowercase b.label) : address = address' := by
  induction address generalizing bindings address' path path' labels with
  | nil =>
    cases h
    cases address' with
    | nil => rfl
    | cons j address' =>
      obtain ⟨c, below, -, -, rfl⟩ := pathAt?_cons_eq_some_iff.mp h'
      cases hlabels
  | cons i address ih =>
    obtain ⟨b, below, hb, hbelow, rfl⟩ := pathAt?_cons_eq_some_iff.mp h
    cases address' with
    | nil =>
      cases h'
      cases hlabels
    | cons j address' =>
      obtain ⟨c, below', hc, hbelow', rfl⟩ := pathAt?_cons_eq_some_iff.mp h'
      obtain ⟨hlabel, hrest⟩ := List.cons.inj hlabels
      obtain rfl : i = j := index_eq_of_lowercase_eq hvalid hb hc hlabel
      obtain rfl : b = c := Option.some.inj (hb.symm.trans hc)
      obtain ⟨-, -, hvalidBelow⟩ := defectBelow?_of_mem hvalid (List.mem_of_getElem? hb)
      rw [ih hbelow hbelow' hvalidBelow hrest]

end Binding

/-! ## Tokens -/

/-- Tokens, each with the blanks that stand behind it. -/
def writeTokens (parts : List (String × String)) : String :=
  String.join (parts.map fun p => p.1 ++ p.2)

variable {parts : List (String × String)} {rest : List Char} {bindings path : List Binding}
  {mode : ScanMode}

theorem toList_writeTokens (parts : List (String × String)) :
    (writeTokens parts).toList = parts.flatMap fun p => p.1.toList ++ p.2.toList := by
  induction parts with
  | nil => rfl
  | cons p parts ih =>
    rw [writeTokens, List.map_cons, String.join_cons, String.toList_append, String.toList_append,
      List.flatMap_cons, ← ih]
    rfl

/-- The tokens are words with gaps between them, and may be read up to a further word behind them.
There is none behind the tokens of a command that is executed, and their last gap may be empty.
While a command is typed, each token has blanks behind it, and the further word may be empty. -/
structure StandApart (mode : ScanMode) (rest : List Char) (parts : List (String × String)) :
    Prop where
  words : ∀ p ∈ parts, p.1 ≠ "" ∧ IsWord p.1.toList
  gaps : ∀ p ∈ parts, IsGap p.2.toList
  between : ∀ p ∈ parts.dropLast, p.2 ≠ ""
  further : IsWord rest
  executed : mode = .execute → rest = []
  typed : mode = .autocomplete → ∀ p ∈ parts, p.2 ≠ ""

namespace StandApart

variable {p : String × String}

theorem of_gaps (hwords : ∀ p ∈ parts, p.1 ≠ "" ∧ IsWord p.1.toList)
    (hgaps : ∀ p ∈ parts, p.2 ≠ "" ∧ IsGap p.2.toList) (hrest : IsWord rest)
    (hexecuted : mode = .execute → rest = []) : StandApart mode rest parts where
  words := hwords
  gaps p hp := (hgaps p hp).2
  between p hp := (hgaps p (List.dropLast_subset parts hp)).1
  further := hrest
  executed := hexecuted
  typed _ p hp := (hgaps p hp).1

theorem tail (h : StandApart mode rest (p :: parts)) : StandApart mode rest parts where
  words q hq := h.words q (List.mem_cons_of_mem p hq)
  gaps q hq := h.gaps q (List.mem_cons_of_mem p hq)
  between q hq := by
    refine h.between q ?_
    cases parts with
    | nil => cases hq
    | cons r parts => exact List.mem_cons_of_mem p hq
  further := h.further
  executed := h.executed
  typed hmode q hq := h.typed hmode q (List.mem_cons_of_mem p hq)

/-- The text of some tokens begins with a character of the first one. -/
theorem exists_cons (h : StandApart mode rest (p :: parts)) :
    ∃ c r, (writeTokens (p :: parts)).toList = c :: r ∧ Text.isBlank c = false := by
  obtain ⟨hne, hword⟩ := h.words p List.mem_cons_self
  obtain ⟨c, r, hcr⟩ := List.exists_cons_of_ne_nil fun hnil =>
    hne (String.toList_eq_nil_iff.mp hnil)
  rw [toList_writeTokens, List.flatMap_cons, hcr]
  exact ⟨c, _, rfl, hword c (hcr ▸ List.mem_cons_self)⟩

/-- What tokens and a further word begin with is no blank. -/
theorem startsPlain (h : StandApart mode rest parts) :
    StartsPlain ((writeTokens parts).toList ++ rest) := by
  cases parts with
  | nil => exact fun c hc => h.further c (List.mem_of_mem_head? hc)
  | cons p parts =>
    obtain ⟨c, r, hcr, hc⟩ := h.exists_cons
    rw [hcr]
    exact startsPlain_cons hc

/-- Nothing stands behind a token only if it is the last one and no further word follows. -/
theorem eq_nil_of_append_eq_nil (h : StandApart mode rest parts)
    (hnil : (writeTokens parts).toList ++ rest = []) : parts = [] := by
  cases parts with
  | nil => rfl
  | cons p parts =>
    obtain ⟨c, r, hcr, -⟩ := h.exists_cons
    rw [hcr] at hnil
    cases hnil

/-- Nothing stands behind an empty gap. -/
theorem append_eq_nil (h : StandApart mode rest (p :: parts)) (hp : p.2.toList = []) :
    (writeTokens parts).toList ++ rest = [] := by
  have hempty := String.toList_eq_nil_iff.mp hp
  have hrest : rest = [] := by
    cases mode with
    | execute => exact h.executed rfl
    | autocomplete => exact absurd hempty (h.typed rfl p List.mem_cons_self)
  cases parts with
  | nil => exact hrest
  | cons q parts => exact absurd hempty (h.between p List.mem_cons_self)

end StandApart

/-- In a tree without a defect the labels on the way to an address are words. -/
theorem labels_of_pathAt? {address : List Nat} (hvalid : Binding.treeDefect? bindings = none)
    (hpath : Binding.pathAt? bindings address = some path) :
    ∀ b ∈ path, b.label ≠ "" ∧ IsWord b.label.toList := by
  cases hlast : path.getLast? with
  | none =>
    rw [List.getLast?_eq_none_iff.mp hlast]
    exact fun b hb => absurd hb List.not_mem_nil
  | some b => exact (words_of_pathTo (Binding.pathTo_of_pathAt? hpath hlast) hvalid).1

/-- Tokens that answer to the labels on the way to an address are words. -/
theorem words_of_pathAt? {address : List Nat} (hvalid : Binding.treeDefect? bindings = none)
    (hpath : Binding.pathAt? bindings address = some path)
    (htokens : parts.map (fun p => Text.lowercase p.1) =
      path.map fun b => Text.lowercase b.label) :
    ∀ p ∈ parts, p.1 ≠ "" ∧ IsWord p.1.toList := by
  intro p hp
  have hmem : Text.lowercase p.1 ∈ path.map fun b => Text.lowercase b.label := by
    rw [← htokens]
    exact List.mem_map_of_mem hp
  obtain ⟨b, hb, hlabel⟩ := List.mem_map.mp hmem
  exact isWord_of_lowercase_eq hlabel.symm (labels_of_pathAt? hvalid hpath b hb)

namespace Scan

/-! ## The descent -/

variable {s : Scan} {p : String × String} {b : Binding}

/-- A further word is still being typed. -/
theorem descend_further (hrest : IsWord rest) (state : s.state = .command) (token : s.token = "")
    (start : s.tokenStart = s.cursor) (h : s.ahead = rest) :
    descend .autocomplete s =
      s.relocate .command (s.cursor + rest.length) (String.ofList rest) s.cursor := by
  have hnil : IsGap ([] : List Char) := nofun
  have hparts := parts_append hrest hnil (fun _ => rfl) nofun
  rw [List.append_nil, List.append_nil] at hparts
  obtain ⟨hfirst, hbehind, -⟩ := hparts
  rw [descend_command_typing state h hbehind, hfirst, pushAll_of_empty token start, state]

/-- The first token leads into its binding, and to what stands behind its gap. -/
theorem descend_firstToken (happart : StandApart mode rest (p :: parts))
    (hfind : Binding.find? s.candidates p.1 = some b) (state : s.state = .command)
    (token : s.token = "") (h : s.ahead = (writeTokens (p :: parts)).toList ++ rest) :
    let position := s.cursor + p.1.toList.length + p.2.toList.length
    let t := (s.enter b).relocate .command position "" position
    let behind := (writeTokens parts).toList ++ rest
    t.ahead = behind ∧ descend mode s = if behind = [] then t else descend mode t := by
  intro position t behind
  have htext : (writeTokens (p :: parts)).toList ++ rest =
      p.1.toList ++ (p.2.toList ++ behind) := by
    simp only [behind, toList_writeTokens, List.flatMap_cons, List.append_assoc]
  rw [htext] at h
  obtain ⟨hfirst, hbehind, hblanks, hnext⟩ := parts_append
    (happart.words p List.mem_cons_self).2 (happart.gaps p List.mem_cons_self)
    happart.append_eq_nil happart.tail.startsPlain
  have hcomplete : mode = .execute ∨ behindWord (p.1.toList ++ (p.2.toList ++ behind)) ≠ [] := by
    cases mode with
    | execute => exact .inl rfl
    | autocomplete =>
      refine .inr fun hnil => happart.typed rfl p List.mem_cons_self ?_
      rw [hbehind] at hnil
      exact String.toList_eq_nil_iff.mp (List.append_eq_nil_iff.mp hnil).1
  have hfind' : Binding.find? s.candidates
      (String.ofList (firstWord (p.1.toList ++ (p.2.toList ++ behind)))) = some b := by
    rw [hfirst, String.ofList_toList]
    exact hfind
  have hrun := descend_command_enter state token h hcomplete hfind'
  rwa [hfirst, hblanks, hnext] at hrun

/-- The descent of tokens that lead along a path enters the bindings of the path, and ends at the
end of the text, with the further word as its token. -/
theorem descend_writeTokens (happart : StandApart mode rest parts)
    (hne : mode = .execute → parts ≠ [])
    (hchain : IsChain s.candidates (parts.map Prod.fst) path) (hlength : path.length = parts.length)
    (state : s.state = .command) (token : s.token = "") (start : s.tokenStart = s.cursor)
    (h : s.ahead = (writeTokens parts).toList ++ rest) :
    descend mode s = (path.foldl enter s).relocate .command
      (s.cursor + ((writeTokens parts).toList.length + rest.length)) (String.ofList rest)
      (s.cursor + (writeTokens parts).toList.length) := by
  induction parts generalizing s path with
  | nil =>
    obtain rfl : path = [] := List.eq_nil_of_length_eq_zero hlength
    cases mode with
    | execute => exact absurd rfl (hne rfl)
    | autocomplete =>
      rw [descend_further happart.further state token start h]
      show _ = s.relocate .command (s.cursor + (0 + rest.length)) _ (s.cursor + 0)
      rw [Nat.zero_add, Nat.add_zero]
  | cons p parts ih =>
    have hwritten : (writeTokens (p :: parts)).toList.length =
        p.1.toList.length + p.2.toList.length + (writeTokens parts).toList.length := by
      simp only [toList_writeTokens, List.flatMap_cons, List.length_append]
    cases hchain with
    | nil => cases hlength
    | @cons _ path b _ _ hfind hbelow =>
    have hlength' : path.length = parts.length := Nat.succ.inj hlength
    obtain ⟨hahead, hrun⟩ := descend_firstToken happart hfind state token h
    rw [List.foldl_cons, hwritten]
    by_cases hend : (writeTokens parts).toList ++ rest = []
    · rw [if_pos hend] at hrun
      obtain rfl := happart.tail.eq_nil_of_append_eq_nil hend
      obtain rfl : rest = [] := hend
      obtain rfl : path = [] := List.eq_nil_of_length_eq_zero hlength'
      rw [hrun, Nat.add_assoc]
      rfl
    · have hne' : mode = .execute → parts ≠ [] := by
        rintro hmode rfl
        exact hend (happart.executed hmode)
      rw [hrun, if_neg hend, ih happart.tail hne' hbelow hlength' rfl rfl rfl hahead,
        foldl_enter_relocate]
      show (path.foldl enter (s.enter b)).relocate .command
        (s.cursor + p.1.toList.length + p.2.toList.length + _) (String.ofList rest)
        (s.cursor + p.1.toList.length + p.2.toList.length + _) = _
      simp only [Nat.add_assoc]

/-- A command whose tokens answer to the labels on the way to an address is matched to the binding
there. -/
theorem matchBinding_writeTokens {command : String} {address : List Nat}
    (h : command.toList = '/' :: ((writeTokens parts).toList ++ rest)) (hne : bindings ≠ [])
    (hvalid : Binding.treeDefect? bindings = none)
    (hpath : Binding.pathAt? bindings address = some path)
    (htokens : parts.map (fun p => Text.lowercase p.1) =
      path.map fun b => Text.lowercase b.label)
    (happart : StandApart mode rest parts) (hexecuted : mode = .execute → path ≠ []) :
    (ofText command).matchBinding bindings mode =
      (path.foldl enter (behindSlash command bindings)).relocate .command command.length
        (String.ofList rest) (1 + (writeTokens parts).toList.length) := by
  have hwords : (parts.map Prod.fst).map Text.lowercase =
      path.map fun b => Text.lowercase b.label := by
    rw [List.map_map]
    exact htokens
  have hlength : path.length = parts.length := by
    simpa using (congrArg List.length htokens).symm
  have hparts : mode = .execute → parts ≠ [] := by
    rintro hmode rfl
    exact hexecuted hmode (List.eq_nil_of_length_eq_zero hlength)
  have hdescend : descend mode (behindSlash command bindings) =
      (path.foldl enter (behindSlash command bindings)).relocate .command
        (1 + ((writeTokens parts).toList.length + rest.length)) (String.ofList rest)
        (1 + (writeTokens parts).toList.length) :=
    descend_writeTokens happart hparts (Binding.isChain_of_pathAt? hpath hvalid hwords) hlength
      rfl rfl rfl (ahead_behindSlash h)
  have hcommand : 1 + ((writeTokens parts).toList.length + rest.length) = command.length := by
    show _ = command.toList.length
    rw [h, List.length_cons, List.length_append, Nat.add_comm]
  rw [hcommand] at hdescend
  rw [matchBinding_ofText h hne, hdescend, matched]
  refine if_pos (.inr ?_)
  cases mode with
  | autocomplete => exact .inr ⟨rfl, rfl⟩
  | execute =>
    left
    show (path.foldl enter (behindSlash command bindings)).binding.isSome = true
    rw [binding_foldl_enter, List.getLast?_eq_some_getLast (hexecuted rfl)]
    rfl

/-- The scan has come to the last binding of a path, and to the end of the text. -/
structure HasReached (s : Scan) (bindings path : List Binding) : Prop where
  error : s.error? = none
  binding : s.binding = path.getLast?
  location : s.location = String.join (path.map fun b => "/" ++ b.locationSegment)
  appId : s.appId = ((path.map (·.appId)).filter (· ≠ "")).getLast?.getD ""
  candidates : s.candidates = Binding.levelBelow bindings path

theorem hasReached_relocate (command : String) (bindings path : List Binding) (cursor : Nat)
    (token : String) (tokenStart : Nat) :
    HasReached ((path.foldl enter (behindSlash command bindings)).relocate .command cursor token
      tokenStart) bindings path where
  error := rfl
  binding := by
    show (path.foldl enter (behindSlash command bindings)).binding = _
    rw [binding_foldl_enter]
    exact Option.or_none
  location := by
    show (path.foldl enter (behindSlash command bindings)).location = _
    rw [location_foldl_enter]
    exact String.empty_append
  appId := appId_foldl_enter path (behindSlash command bindings)
  candidates := candidates_foldl_enter path (behindSlash command bindings)

theorem hasReached_writeTokens {command : String} {address : List Nat}
    (h : command.toList = '/' :: ((writeTokens parts).toList ++ rest)) (hne : bindings ≠ [])
    (hvalid : Binding.treeDefect? bindings = none)
    (hpath : Binding.pathAt? bindings address = some path)
    (htokens : parts.map (fun p => Text.lowercase p.1) =
      path.map fun b => Text.lowercase b.label)
    (happart : StandApart mode rest parts) (hexecuted : mode = .execute → path ≠ []) :
    ((ofText command).matchBinding bindings mode).HasReached bindings path := by
  rw [matchBinding_writeTokens h hne hvalid hpath htokens happart hexecuted]
  exact hasReached_relocate ..

/-! ## Reachability -/

/-- **Every binding can be reached.**  In a tree without a defect take any address, and tokens that
answer to the labels on the way to it, in any case, with any blanks between them and perhaps behind
them.  The command of these tokens is matched without an error to the binding at the address, with
nothing left for parameters, and the tokens answer to the labels on the way to no other address. -/
theorem matchBinding_of_address {address : List Nat} {b : Binding}
    (hvalid : Binding.treeDefect? bindings = none)
    (hpath : Binding.pathAt? bindings address = some path) (hlast : path.getLast? = some b)
    (htokens : parts.map (fun p => Text.lowercase p.1) =
      path.map fun b => Text.lowercase b.label)
    (hgaps : ∀ p ∈ parts, IsGap p.2.toList) (hbetween : ∀ p ∈ parts.dropLast, p.2 ≠ "") :
    let command := "/" ++ writeTokens parts
    let m := (ofText command).matchBinding bindings .execute
    (m.binding = some b ∧ m.HasReached bindings path ∧ m.tokenStart = command.length) ∧
      ∀ address' path', Binding.pathAt? bindings address' = some path' →
        parts.map (fun p => Text.lowercase p.1) = path'.map (fun b => Text.lowercase b.label) →
        address' = address := by
  intro command m
  have happart : StandApart .execute [] parts :=
    ⟨words_of_pathAt? hvalid hpath htokens, hgaps, hbetween, nofun, fun _ => rfl, nofun⟩
  have htext : command.toList = '/' :: ((writeTokens parts).toList ++ []) := by
    rw [List.append_nil]
    exact String.toList_append
  have hne : path ≠ [] := by
    rintro rfl
    cases hlast
  have hbindings : bindings ≠ [] := by
    rintro rfl
    cases Binding.pathTo_of_pathAt? hpath hlast with
    | single hmem => cases hmem
    | cons hmem _ => cases hmem
  have hm : m = (path.foldl enter (behindSlash command bindings)).relocate .command command.length
      "" (1 + (writeTokens parts).toList.length) :=
    matchBinding_writeTokens htext hbindings hvalid hpath htokens happart fun _ => hne
  have hreached : m.HasReached bindings path := hm ▸ hasReached_relocate ..
  have hstart : m.tokenStart = command.length := by
    show _ = command.toList.length
    rw [hm, htext, List.append_nil, List.length_cons, Nat.add_comm]
    rfl
  refine ⟨⟨hreached.binding.trans hlast, hreached, hstart⟩, ?_⟩
  intro address' path' hpath' htokens'
  exact Binding.address_eq_of_lowercase_eq hpath' hpath hvalid (htokens'.symm.trans htokens)

/-- A binding that looks like another one below a sibling, reached through the second of them. -/
theorem matchBinding_of_address_issue :
    let issue : Binding := { label := "issue" }
    let bindings : List Binding :=
      [{ label := "jira", location := "it", bindings := [issue] },
        { label := "Jira2", location := "it", bindings := [issue] }]
    let parts := [("jIRA2", "  "), ("Issue", "\t")]
    let m := (ofText "/jIRA2  Issue\t").matchBinding bindings .execute
    Binding.treeDefect? bindings = none ∧
      Binding.pathAt? bindings [1, 0] = some [bindings[1], issue] ∧
      m.error? = none ∧ m.binding = some issue ∧ m.tokenStart = 14 ∧
      ∀ address path, Binding.pathAt? bindings address = some path →
        parts.map (fun p => Text.lowercase p.1) = path.map (fun b => Text.lowercase b.label) →
        address = [1, 0] := by
  intro issue bindings parts m
  have hvalid : Binding.treeDefect? bindings = none := by
    have hissue {label : String} (h : Binding.labelDefect? [label] [] "issue" = none) :
        Binding.defectBelow? [label] [] [issue] = none :=
      Binding.defectBelow?_cons_eq_none_iff.mpr
        ⟨h, by decide, Binding.defectBelow?_nil, Binding.defectBelow?_nil⟩
    have hsecond : Binding.defectBelow? [] ["jira"] [bindings[1]] = none :=
      Binding.defectBelow?_cons_eq_none_iff.mpr
        ⟨by decide, by decide, hissue (by decide), Binding.defectBelow?_nil⟩
    exact Binding.defectBelow?_cons_eq_none_iff.mpr
      ⟨by decide, by decide, hissue (by decide), hsecond⟩
  have hpath : Binding.pathAt? bindings [1, 0] = some [bindings[1], issue] := rfl
  have htokens : parts.map (fun p => Text.lowercase p.1) =
      [bindings[1], issue].map fun b => Text.lowercase b.label := by decide
  obtain ⟨⟨hbinding, hreached, hstart⟩, hunique⟩ :=
    matchBinding_of_address hvalid hpath rfl htokens (by decide) (by decide)
  have hcommand : "/" ++ writeTokens parts = "/jIRA2  Issue\t" := by decide
  rw [hcommand] at hbinding hreached hstart
  exact ⟨hvalid, hpath, hreached.error, hbinding, hstart, hunique⟩

end Scan

end SlashCommand
