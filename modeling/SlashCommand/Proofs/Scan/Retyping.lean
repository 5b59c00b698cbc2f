import SlashCommand.Proofs.Scan.LastToken
import SlashCommand.Proofs.Scan.Prefixes

/-!
# Typing the parameters anew

A command that has come to its leaf keeps it when the text is changed from its parameters on
(`matchBinding_retyped`): the descent reads the same labels, and what comes then is no label below a
leaf, whatever it is.

With that the last token of a command can be exchanged as a whole.  What is accepted in its place is
what the changed command has when it is executed (`parseForm_retyped`).
-/

namespace SlashCommand

namespace Scan

variable {form : Form} {field : Field} {s a e : Scan} {leaf : Binding} {mode : ScanMode}
  {pre old new q text token : List Char} {position : Nat}

/-! ## Words that two texts share -/

/-- If the first word and the blanks behind it are in a part of the text, the rest of that part is
what the next word begins with. -/
theorem exists_nextWord_append
    (h : (firstWord (q ++ old)).length + (gapBehind (q ++ old)).length ≤ q.length) :
    ∃ q', q = firstWord (q ++ old) ++ (gapBehind (q ++ old) ++ q') ∧
      nextWord (q ++ old) = q' ++ old := by
  have hsplit : (firstWord (q ++ old) ++ gapBehind (q ++ old)) ++ nextWord (q ++ old) = q ++ old := by
    rw [List.append_assoc, gapBehind_append_nextWord, firstWord_append_behindWord]
  have hprefix : firstWord (q ++ old) ++ gapBehind (q ++ old) <+: q := by
    refine List.prefix_of_prefix_length_le ⟨_, hsplit⟩ (List.prefix_append q old) ?_
    rwa [List.length_append]
  obtain ⟨q', hq⟩ := hprefix
  refine ⟨q', by rw [← List.append_assoc, hq], ?_⟩
  refine List.append_cancel_left (hsplit.trans ?_)
  rw [← List.append_assoc, hq]

/-- Behind a complete word there is a blank. -/
theorem gapBehind_ne_nil (h : behindWord text ≠ []) : gapBehind text ≠ [] := by
  intro hnil
  refine h (eq_nil_of_startsBlank (startsBlank_behindWord text) ?_)
  have hplain := startsPlain_nextWord text
  rwa [← gapBehind_append_nextWord, hnil]

/-- Whatever comes behind the first word and its blanks, they are what the text begins with. -/
theorem words_of_shared (hcomplete : behindWord (q ++ old) ≠ [])
    (hq : q = firstWord (q ++ old) ++ (gapBehind (q ++ old) ++ text))
    (hplain : StartsPlain (text ++ new)) :
    firstWord (q ++ new) = firstWord (q ++ old) ∧ gapBehind (q ++ new) = gapBehind (q ++ old) ∧
      nextWord (q ++ new) = text ++ new ∧ behindWord (q ++ new) ≠ [] := by
  have hgap := gapBehind_ne_nil hcomplete
  have hnew : q ++ new = firstWord (q ++ old) ++ (gapBehind (q ++ old) ++ (text ++ new)) := by
    rw [← List.append_assoc, ← List.append_assoc, List.append_assoc (firstWord _), ← hq]
  obtain ⟨hfirst, hbehind, hgap', hnext⟩ := parts_append (isWord_firstWord (q ++ old))
    (isGap_gapBehind (q ++ old)) (fun hnil => absurd hnil hgap) hplain
  rw [← hnew] at hfirst hbehind hgap' hnext
  refine ⟨hfirst, hgap', hnext, ?_⟩
  rw [hbehind]
  exact fun hnil => hgap (List.append_eq_nil_iff.mp hnil).1

/-! ## The descent -/

/-- Below a leaf the descent leaves everything to the parameters. -/
theorem descend_leaf_retyped (hstate : s.state = .command) (hnone : s.candidates = [])
    (text : List Char) : (descend .autocomplete (s.onText text)).rewind =
      (descend .autocomplete s).rewind.onText text := by
  have hstate' : (s.onText text).state = .command := hstate
  have hnone' : (s.onText text).candidates = [] := hnone
  rw [descend_command_of_nil hstate hnone, descend_command_of_nil hstate' hnone']
  rfl

/-- A scan that begins a token. -/
structure BeginsToken (s : Scan) : Prop where
  state : s.state = .command
  token : s.token = ""
  tokenStart : s.tokenStart = s.cursor

/-- What stands in front of the parameters of a text, and the text that they are changed to. -/
structure Shares (s : Scan) (text q old new : List Char) : Prop where
  ahead : s.ahead = q ++ old
  changed : (s.onText text).ahead = q ++ new
  position : (descend .autocomplete s).tokenStart = s.cursor + q.length
  plain : ∃ c r, new = c :: r ∧ (Text.isBlank c = false ∨ old.head? = some c)

/-- The scan at the next token, behind a label. -/
def behindLabel (s : Scan) (b : Binding) (text : List Char) : Scan :=
  let position := s.cursor + (firstWord text).length + (gapBehind text).length
  (s.enter b).relocate .command position "" position

/-- A label leads to the next token, or to the end of the text. -/
theorem descend_behindLabel {b : Binding} (hs : BeginsToken s) (hahead : s.ahead = text)
    (hcomplete : behindWord text ≠ [])
    (hfind : Binding.find? s.candidates (String.ofList (firstWord text)) = some b) :
    (s.behindLabel b text).ahead = nextWord text ∧
      descend .autocomplete s = descend .autocomplete (s.behindLabel b text) := by
  obtain ⟨hnext, hrun⟩ : (s.behindLabel b text).ahead = nextWord text ∧ descend .autocomplete s = _ :=
    descend_command_enter hs.state hs.token hahead (.inr hcomplete) hfind
  refine ⟨hnext, hrun.trans ?_⟩
  split
  · rename_i hnil
    exact (descend_typing rfl (hnext.trans hnil)).symm
  · rfl

/-- A label is read in both texts. -/
theorem Shares.enter {b : Binding} (h : Shares s text q old new) (hs : BeginsToken s)
    (hcomplete : behindWord (q ++ old) ≠ [])
    (hfind : Binding.find? s.candidates (String.ofList (firstWord (q ++ old))) = some b) :
    let t := s.behindLabel b (q ++ old)
    ∃ q', Shares t text q' old new ∧ (q' ++ old).length < (q ++ old).length ∧
      descend .autocomplete s = descend .autocomplete t ∧
      descend .autocomplete (s.onText text) = descend .autocomplete (t.onText text) := by
  intro t
  obtain ⟨hnext, hrun⟩ := descend_behindLabel hs h.ahead hcomplete hfind
  have hread : s.cursor + ((firstWord (q ++ old)).length + (gapBehind (q ++ old)).length) =
      t.cursor := (Nat.add_assoc _ _ _).symm
  have hle : t.cursor ≤ s.cursor + q.length := by
    rw [← h.position, hrun]
    exact Behind.descend ⟨Nat.le_refl _, .inr (Nat.le_refl _)⟩ .autocomplete
  have hword : (firstWord (q ++ old)).length + (gapBehind (q ++ old)).length ≤ q.length := by
    omega
  obtain ⟨q', hq, hrest⟩ := exists_nextWord_append hword
  have hlength : q.length =
      (firstWord (q ++ old)).length + ((gapBehind (q ++ old)).length + q'.length) := by
    simpa using congrArg List.length hq
  have hplain : StartsPlain (q' ++ new) := by
    have hold : StartsPlain (q' ++ old) := hrest ▸ startsPlain_nextWord (q ++ old)
    cases q' with
    | cons c q' => exact startsPlain_cons (hold c rfl)
    | nil =>
      obtain ⟨c, r, rfl, hc | hc⟩ := h.plain
      · exact startsPlain_cons hc
      · exact startsPlain_cons (hold c hc)
  obtain ⟨hfirst, hgap, hnext', hcomplete'⟩ := words_of_shared hcomplete hq hplain
  have hs' : BeginsToken (s.onText text) := ⟨hs.state, hs.token, hs.tokenStart⟩
  have hfind' : Binding.find? (s.onText text).candidates (String.ofList (firstWord (q ++ new))) =
      some b := by
    rw [hfirst]
    exact hfind
  obtain ⟨hahead', hrun'⟩ := descend_behindLabel hs' h.changed hcomplete' hfind'
  have hsame : (s.onText text).behindLabel b (q ++ new) = t.onText text := by
    simp only [behindLabel, hfirst, hgap]
    rfl
  rw [hsame] at hahead' hrun'
  refine ⟨q', ⟨hnext.trans hrest, hahead'.trans hnext', ?_, h.plain⟩, ?_, hrun, hrun'⟩
  · rw [← hrun, h.position]
    omega
  · have hpos := List.length_pos_iff.mpr (gapBehind_ne_nil hcomplete)
    simp only [List.length_append]
    omega

/-- The descent to a leaf depends only on the text in front of the parameters, if something comes
there that is not taken for a blank. -/
theorem descend_retyped (hs : BeginsToken s)
    (hbelow : ∀ b, s.binding = some b → s.candidates = b.bindings)
    (hb : (descend .autocomplete s).binding = some leaf) (hleaf : leaf.isLeaf = true)
    (h : Shares s text q old new) :
    (descend .autocomplete (s.onText text)).rewind =
      (descend .autocomplete s).rewind.onText text := by
  induction hn : (q ++ old).length using Nat.strongRecOn generalizing s q with
  | ind n ih =>
    have hsame (hbinding : (descend .autocomplete s).binding = s.binding) :
        (descend .autocomplete (s.onText text)).rewind =
          (descend .autocomplete s).rewind.onText text := by
      refine descend_leaf_retyped hs.state ?_ text
      rw [hbelow leaf (hbinding.symm.trans hb)]
      exact List.isEmpty_iff.mp hleaf
    by_cases htyping : behindWord (q ++ old) = []
    · refine hsame ?_
      rw [descend_command_typing hs.state h.ahead htyping]
      rfl
    · cases hfind : Binding.find? s.candidates (String.ofList (firstWord (q ++ old))) with
      | none =>
        refine hsame ?_
        have hread := pushAll_of_empty hs.token hs.tokenStart (firstWord (q ++ old))
        rw [descend_command_complete hs.state h.ahead (.inr htyping),
          descend_none (by rw [hread]; exact hfind)]
        rfl
      | some b =>
        obtain ⟨q', hshares, hlt, hrun, hrun'⟩ := h.enter hs htyping hfind
        rw [hrun] at hb ⊢
        rw [hrun']
        refine ih _ (hn ▸ hlt) ⟨rfl, rfl, rfl⟩ ?_ hb hshares rfl
        rintro b' hb'
        exact congrArg Binding.bindings (Option.some.inj hb')

/-! ## Whole commands -/

variable {bindings : List Binding}

/-- A command that matches a binding begins with a slash. -/
theorem exists_slash {typed : String}
    (hbinding : ((ofText typed).matchBinding bindings .autocomplete).binding = some leaf) :
    bindings ≠ [] ∧ ∃ r, typed.toList = '/' :: r := by
  have hne : bindings ≠ [] := by
    rintro rfl
    cases hbinding
  refine ⟨hne, Classical.byContradiction fun hslash => ?_⟩
  have hpeek : ({ ofText typed with candidates := bindings } : Scan).peek? ≠ some '/' := by
    intro hpeek
    exact hslash (ahead_of_peek? hpeek)
  have hfail : descentStep .autocomplete { ofText typed with candidates := bindings } =
      .fail _ .noSlashStart := if_neg hpeek
  rw [matchBinding_eq_matched hne, (binding_matched _ _).1, descend, run_of_fail hfail] at hbinding
  cases hbinding

/-- The parameters begin behind the slash. -/
theorem one_le_tokenStart_matchBinding {typed : String}
    (hbinding : ((ofText typed).matchBinding bindings .autocomplete).binding = some leaf) :
    1 ≤ ((ofText typed).matchBinding bindings .autocomplete).tokenStart := by
  obtain ⟨hne, rest, hslash⟩ := exists_slash hbinding
  rw [matchBinding_ofText hslash hne] at hbinding ⊢
  rw [(binding_matched _ _).1] at hbinding
  rw [matched_of_binding hbinding]
  have hbegin : Behind 1 (behindSlash typed bindings) := ⟨Nat.le_refl 1, .inr (Nat.le_refl 1)⟩
  exact hbegin.descend .autocomplete

/-- A command that has come to its leaf comes to it again when the text is changed from its
parameters on. -/
theorem matchBinding_retyped {typed changed : String}
    (hbinding : ((ofText typed).matchBinding bindings .autocomplete).binding = some leaf)
    (hleaf : leaf.isLeaf = true) (htyped : typed.toList = pre ++ old)
    (hchanged : changed.toList = pre ++ new)
    (hstart : ((ofText typed).matchBinding bindings .autocomplete).tokenStart = pre.length)
    (hnew : ∃ c r, new = c :: r ∧ (Text.isBlank c = false ∨ old.head? = some c)) :
    ((ofText changed).matchBinding bindings .autocomplete).rewind =
      ((ofText typed).matchBinding bindings .autocomplete).rewind.onText changed.toList := by
  have hpos : 1 ≤ pre.length := by
    rw [← hstart]
    exact one_le_tokenStart_matchBinding hbinding
  obtain ⟨hne, rest, hslash⟩ := exists_slash hbinding
  rw [matchBinding_ofText hslash hne] at hbinding hstart ⊢
  rw [(binding_matched _ _).1] at hbinding
  rw [matched_of_binding hbinding] at hstart ⊢
  obtain ⟨d, q, rfl⟩ := List.exists_cons_of_length_pos hpos
  obtain ⟨rfl, hrest⟩ := List.cons.inj (htyped.symm.trans hslash)
  have hslash' : changed.toList = '/' :: (q ++ new) := hchanged
  have hbegin : (behindSlash typed bindings).onText changed.toList =
      behindSlash changed bindings := rfl
  have hshares : Shares (behindSlash typed bindings) changed.toList q old new := by
    refine ⟨ahead_behindSlash htyped, ?_, ?_, hnew⟩
    · rw [hbegin]
      exact ahead_behindSlash hslash'
    · rw [hstart, List.length_cons, Nat.add_comm]
      rfl
  have hsame := descend_retyped ⟨rfl, rfl, rfl⟩
    (fun b hb => (Option.some_ne_none b hb.symm).elim) hbinding hleaf hshares
  rw [hbegin] at hsame
  have hbinding' : (descend .autocomplete (behindSlash changed bindings)).binding = some leaf :=
    (congrArg Scan.binding hsame :).trans hbinding
  rw [matchBinding_ofText hslash' hne, matched_of_binding hbinding', hsame]

/-! ## The parameters -/

variable {m scan : Scan} {changed : List Char}

/-- The token and the cursor are at a position of the text or behind it. -/
structure StandsFrom (position : Nat) (s : Scan) : Prop where
  tokenStart : position ≤ s.tokenStart
  cursor : position ≤ s.cursor
  length : position ≤ s.text.length

section StandsFrom

variable {t : Scan} {i : Nat} {quote : Quote}

theorem StandsFrom.read (h : StandsFrom position s) (htext : t.text = s.text)
    (hstart : t.tokenStart = s.tokenStart) (hcursor : s.cursor ≤ t.cursor) :
    StandsFrom position t :=
  ⟨hstart ▸ h.tokenStart, Nat.le_trans h.cursor hcursor, htext ▸ h.length⟩

theorem StandsFrom.begin (h : StandsFrom position s) (htext : t.text = s.text)
    (hstart : s.cursor ≤ t.tokenStart) (hcursor : s.cursor ≤ t.cursor) : StandsFrom position t :=
  ⟨Nat.le_trans h.cursor hstart, Nat.le_trans h.cursor hcursor, htext ▸ h.length⟩

theorem QuotedMoves.standsFrom {closed : ScanState} (hmove : QuotedMoves quote closed s t)
    (h : StandsFrom position s) : StandsFrom position t := by
  cases hmove with
  | close | plain => exact h.read rfl rfl (Nat.le_succ _)
  | escape => exact h.read rfl rfl (Nat.le_add_right _ 2)

theorem ValueEndMoves.standsFrom {quoted : Bool} (hmove : ValueEndMoves mode field quoted s t)
    (h : StandsFrom position s) : StandsFrom position t := by
  cases hmove with
  | rescan => exact ⟨h.tokenStart, h.tokenStart, h.length⟩
  | close => exact h.begin rfl (Nat.le_refl _) (Nat.le_refl _)

theorem ValueMoves.standsFrom {stage : ValueStage} (hmove : ValueMoves mode field i s stage t)
    (h : StandsFrom position s) : StandsFrom position t := by
  cases hmove with
  | separatorEnd | begin | startEnd | bare => exact h.begin rfl (Nat.le_refl _) (Nat.le_refl _)
  | equals | gap | quote | bracket => exact h.begin rfl (Nat.le_refl _) (Nat.le_succ _)
  | push => exact h.read rfl rfl (Nat.le_succ _)
  | complete => exact h.read rfl rfl (Nat.le_refl _)
  | quoted hquoted => exact hquoted.standsFrom h
  | endBare hend | endQuoted hend => exact hend.standsFrom h

theorem ListMoves.standsFrom {stage : ListStage} (hmove : ListMoves field i s stage t)
    (h : StandsFrom position s) : StandsFrom position t := by
  cases hmove with
  | gap | close | push | comma => exact h.read rfl rfl (Nat.le_succ _)
  | begin | complete | append => exact h.read rfl rfl (Nat.le_refl _)
  | startEnd | bare => exact h.begin rfl (Nat.le_refl _) (Nat.le_refl _)
  | quote => exact h.begin rfl (Nat.le_refl _) (Nat.le_succ _)
  | quoted hquoted => exact hquoted.standsFrom h

theorem Moves.standsFrom (hmove : Moves form mode s t) (h : StandsFrom position s) :
    StandsFrom position t := by
  cases hmove with
  | dash | name => exact h.read rfl rfl (Nat.le_succ _)
  | positional | flag => exact h.read rfl rfl (Nat.le_refl _)
  | rest | begin | singleDash | listEnd => exact h.begin rfl (Nat.le_refl _) (Nat.le_refl _)
  | gap => exact h.begin rfl (Nat.le_refl _) (Nat.le_succ _)
  | secondDash => exact h.begin rfl (Nat.le_succ _) (Nat.le_succ _)
  | value _ _ hvalue => exact hvalue.standsFrom h
  | list _ _ hlist => exact hlist.standsFrom h

theorem CutsQuotation.standsFrom (hcut : CutsQuotation quote s t) (h : StandsFrom position s) :
    StandsFrom position t := by
  cases hcut with
  | nil => exact h
  | backslash => exact h.read rfl rfl (Nat.le_succ _)

theorem Stops.standsFrom (hstops : Stops form mode s t) (h : StandsFrom position s) :
    StandsFrom position t := by
  cases hstops with
  | startParameter | parameterSeparator | separator | element | elementSeparator | listEnd
  | close => exact h.begin rfl (Nat.le_refl _) (Nat.le_refl _)
  | flagName | endBare | endQuoted | bareElement => exact h
  | quotedValue _ _ hcut | quotedElement _ _ hcut => exact hcut.standsFrom h
  | rest => exact ⟨h.tokenStart, h.length, h.length⟩

theorem Fails.standsFrom {e : GrammarError} (hfails : Fails form mode s t e)
    (h : StandsFrom position s) : StandsFrom position t := by
  cases hfails with
  | position => exact h.read rfl rfl (Nat.le_refl _)
  | equals | blank | listCut | emptyElement | behindList =>
    exact h.begin rfl (Nat.le_refl _) (Nat.le_refl _)
  | quotedValue _ hquoted | quotedElement _ hquoted =>
    cases hquoted with
    | empty => exact h
    | cut _ hcut => exact hcut.standsFrom h
  | flag | behindQuotation | missing | elementCut | noElement | inElement | behindElement =>
    exact h

end StandsFrom

/-- Reading parameters begins no token in front of them. -/
theorem le_tokenStart_readForm (h : StandsFrom position s) :
    position ≤ (readForm form mode s).tokenStart := by
  refine (run_preserves (StandsFrom position) (fun t ht => ?_) ?_ h).tokenStart
  · exact scan_parameterStep (fun _ hmove => hmove.standsFrom ht)
      (fun _ hstops => hstops.standsFrom ht) (fun _ _ hfails => hfails.standsFrom ht) ht
  · exact fun t e ht => ⟨ht.tokenStart, ht.cursor, ht.length⟩

/-- Whatever takes the place of the last token begins plainly. -/
theorem Takes.exists_cons (h : Takes form a s field text token) :
    ∃ c r, text = c :: r ∧ Text.isBlank c = false := by
  have helement {text token : List Char} (h : ElementText text token) :
      ∃ c r, text = c :: r ∧ Text.isBlank c = false := by
    obtain ⟨c, r, hcons, hblank, -⟩ := h.exists_cons
    exact ⟨c, r, hcons, hblank⟩
  have hspells := h.spells
  unfold Spells at hspells
  split at hspells
  · exact hspells.exists_cons
  · exact hspells.exists_cons
  · exact hspells.elim
  · exact helement hspells
  · exact hspells.elim

/-- What comes when a command is changed from its last token on, and is executed from where its
parameters begin. -/
theorem parseForm_retyped (hform : form.defect? = none) (hm : m.isFailed = false)
    (hstands : Stands .startParameter 0 ∅ old (m.withForm form).rewind)
    (hle : m.tokenStart ≤ m.text.length)
    (hspelled : SpellsBools form (m.withForm form).rewind)
    (hscan : (m.withForm form).parseForm .autocomplete = scan) (hfailed : scan.isFailed = false)
    (hfield : scan.awaitedField? = some field) (hbool : field.type ≠ .bool)
    (htakes : Takes form (m.withForm form).rewind scan field text token) :
    ∃ new, m.text.take scan.tokenStart ++ (text ++ scan.closing) = m.text.take m.tokenStart ++ new ∧
      (∃ c r, new = c :: r ∧ (Text.isBlank c = false ∨ old.head? = some c)) ∧
      ∀ e : Scan, e.isFailed = false →
        e.rewind = m.rewind.onText (m.text.take m.tokenStart ++ new) →
        ((e.withForm form).parseForm .execute).isFailed = false ∧
          ((e.withForm form).parseForm .execute).values = scan.accept field (String.ofList token) := by
  have hnot {t : Scan} (ht : t.isFailed = false) : ¬ t.isFailed = true := by simp [ht]
  rw [parseForm_withForm, if_neg (hnot hm)] at hscan
  subst hscan
  have hreading : Reading form m.text (m.withForm form).rewind :=
    Reading.rewind (s := m.withForm form) hle
  have hlast := lastToken_readForm hform hstands rfl hreading hspelled hfailed
  have hkept : (readForm form .autocomplete (m.withForm form).rewind).form = some form :=
    (sameForm_readForm form .autocomplete _).form
  obtain ⟨w, r, hahead, hstart, hread⟩ := hlast.accepts field text token hkept hfield hbool htakes
  have hold : old = w ++ r := hstands.ahead_eq.symm.trans hahead
  have htake : m.text.take (m.tokenStart + w.length) = m.text.take m.tokenStart ++ w := by
    have hdrop : m.text.drop m.tokenStart = w ++ r := hahead
    rw [List.take_add, hdrop, List.take_left]
  refine ⟨w ++ (text ++ (readForm form .autocomplete (m.withForm form).rewind).closing), ?_, ?_, ?_⟩
  · rw [hstart]
    show m.text.take (m.tokenStart + w.length) ++ _ = _
    rw [htake, List.append_assoc]
  · cases w with
    | nil =>
      obtain ⟨c, rest, hcons, hblank⟩ := htakes.exists_cons
      exact ⟨c, _, by rw [hcons]; rfl, .inl hblank⟩
    | cons c w => exact ⟨c, _, rfl, .inr (by rw [hold]; rfl)⟩
  · intro e he hsame
    have hbegin : (e.withForm form).rewind = (m.withForm form).rewind.onText _ :=
      congrArg (·.withForm form) hsame
    have hstands' : Stands .startParameter 0 ∅
        (w ++ (text ++ (readForm form .autocomplete (m.withForm form).rewind).closing))
        (e.withForm form).rewind := by
      rw [hbegin]
      refine ⟨rfl, hstands.positionals_eq, hstands.values_eq, ?_⟩
      show (m.text.take m.tokenStart ++ _).drop m.tokenStart = _
      rw [List.drop_left' (by rw [List.length_take, Nat.min_eq_left hle])]
    have hout := hread _ hstands'
    rw [parseForm_withForm, if_neg (hnot he)]
    unfold outcome at hout
    split at hout
    · cases hout
    · rename_i hnot
      exact ⟨by simpa using hnot, Option.some.inj hout⟩

end Scan

end SlashCommand
