import SlashCommand.Json.Writer
import SlashCommand.Proofs.Json.Depth

/-!
# What is written as JSON is read back

From the text of a document whose scalars can be read comes what there is room for
(`parse_compact_of_isLegible`).  A document that is not nested too deeply and has nothing in it but
whole numbers, texts, truth values and nulls is read back as it is (`parse_compact`).

The reader is followed along the text.  A mark or a text in quotes completes a token at its last
character; a word is completed by what stands behind it, so all that is written in this way is
followed by a mark or by the end (`Ends`).  A document then takes the builder from the place where a
value is waited for to the place behind it (`run_compact`), by induction on the document.
-/

namespace SlashCommand.Json

open Datum (Nested IsLegible IsWritten)

variable {b b' : Builder} {t : Token} {c : Char} {cs rest word : List Char}

/-- The document that comes of a text of which a part has been read. -/
def run (r : Reader) (cs : List Char) : Option Datum := (cs.foldlM Reader.step r).bind Reader.finish

theorem parse_eq_run (text : String) : parse text = run ⟨.between, .start⟩ text.toList := rfl

/-- The lexer takes a character, and the builder the tokens that it completes. -/
theorem run_cons_eq {l : Lexer} : run ⟨l, b⟩ (c :: cs) =
    (l.step c).bind fun next => (next.1.foldlM Builder.step b).bind fun b' =>
      run ⟨next.2, b'⟩ cs := by
  simp only [run, List.foldlM_cons, Reader.step, Option.bind_eq_bind, Option.bind_assoc,
    Option.bind_some]

/-- A character that the lexer takes with the given tokens takes the reader on. -/
theorem run_cons {l l' : Lexer} {ts : List Token} (hlexer : l.step c = some (ts, l'))
    (hbuilder : ts.foldlM Builder.step b = some b') :
    run ⟨l, b⟩ (c :: cs) = run ⟨l', b'⟩ cs := by
  rw [run_cons_eq, hlexer, Option.bind_some, hbuilder, Option.bind_some]

/-- A character that completes no token. -/
theorem run_cons_silent {l l' : Lexer} (hlexer : l.step c = some ([], l')) :
    run ⟨l, b⟩ (c :: cs) = run ⟨l', b⟩ cs := run_cons hlexer rfl

@[simp] theorem foldlM_singleton (t : Token) : [t].foldlM Builder.step b = b.step t := by
  rw [List.foldlM_cons]
  exact Option.bind_fun_some (b.step t)

theorem begin_of_mark? (hmark : mark? c = some t) : Lexer.begin c = (some t, .between) := by
  unfold mark? at hmark
  split at hmark <;> first | (cases hmark; rfl) | cases hmark

/-- A mark is a token by itself. -/
theorem run_mark_eq (hmark : mark? c = some t) :
    run ⟨.between, b⟩ (c :: cs) = (b.step t).bind fun b' => run ⟨.between, b'⟩ cs := by
  have hlexer : Lexer.between.step c = some ([t], .between) := by
    rw [Lexer.step, begin_of_mark? hmark]
    rfl
  rw [run_cons_eq, hlexer, Option.bind_some, foldlM_singleton]

theorem run_mark (hmark : mark? c = some t) (hbuilder : b.step t = some b') :
    run ⟨.between, b⟩ (c :: cs) = run ⟨.between, b'⟩ cs := by
  rw [run_mark_eq hmark, hbuilder, Option.bind_some]

/-! ## Words -/

/-- A character that a word can have. -/
def IsWordChar (c : Char) : Prop := isSpace c = false ∧ c ≠ '"' ∧ (mark? c).isSome = false

instance : DecidablePred IsWordChar := fun _ => inferInstanceAs (Decidable (_ ∧ _ ∧ _))

theorem isWordChar_of_all (h : word.all (fun c => decide (IsWordChar c)) = true) :
    ∀ c ∈ word, IsWordChar c := fun c hc => of_decide_eq_true (List.all_eq_true.mp h c hc)

/-- Nothing follows, or a mark. -/
def Ends (cs : List Char) : Prop := ∀ c ∈ cs.head?, (mark? c).isSome = true

theorem run_wordChars {done : List Char} (hword : ∀ c ∈ word, IsWordChar c) :
    run ⟨.word done, b⟩ (word ++ rest) = run ⟨.word (word.reverse ++ done), b⟩ rest := by
  induction word generalizing done with
  | nil => rfl
  | cons c word ih =>
    obtain ⟨⟨hspace, hquote, hmark⟩, hword⟩ := List.forall_mem_cons.mp hword
    have hstep : (Lexer.word done).step c = some ([], .word (c :: done)) := by
      simp [Lexer.step, hspace, hquote, hmark]
    rw [List.cons_append, run_cons_silent hstep, ih hword, List.reverse_cons, List.append_assoc]
    rfl

/-- A word is a token when what follows completes it. -/
theorem run_wordEnd (ht : wordToken? word = some t) (hbuilder : b.step t = some b')
    (hrest : Ends rest) : run ⟨.word word, b⟩ rest = run ⟨.between, b'⟩ rest := by
  cases rest with
  | nil =>
    simp only [run, List.foldlM_nil, Option.pure_def, Option.bind_some, Reader.finish, Lexer.finish,
      ht, Option.map_some, Option.bind_eq_bind, foldlM_singleton, hbuilder]
  | cons c rest =>
    obtain ⟨m, hm⟩ := Option.isSome_iff_exists.mp (hrest c rfl)
    simp only [run, List.foldlM_cons, Reader.step, Lexer.step, hm, Option.isSome_some, or_true,
      if_true, ht, begin_of_mark? hm, Option.bind_eq_bind, Option.bind_some, Option.toList_some,
      hbuilder]

theorem run_word (hne : word ≠ []) (hword : ∀ c ∈ word, IsWordChar c)
    (ht : wordToken? word.reverse = some t) (hbuilder : b.step t = some b') (hrest : Ends rest) :
    run ⟨.between, b⟩ (word ++ rest) = run ⟨.between, b'⟩ rest := by
  cases word with
  | nil => exact absurd rfl hne
  | cons c word =>
    obtain ⟨⟨hspace, hquote, hmark⟩, hword⟩ := List.forall_mem_cons.mp hword
    have hnone : mark? c = none := Option.not_isSome_iff_eq_none.mp (Bool.eq_false_iff.mp hmark)
    have hstep : Lexer.between.step c = some ([], .word [c]) := by
      simp [Lexer.step, Lexer.begin, hspace, hquote, hnone]
    rw [List.cons_append, run_cons_silent hstep, run_wordChars hword, ← List.reverse_cons]
    exact run_wordEnd ht hbuilder hrest

/-! ## Texts in quotes -/

/-- Characters of the basic plane and beyond are no halves of surrogate pairs. -/
theorem joinSurrogates_map_toNat (cs : List Char) :
    joinSurrogates (cs.map Char.toNat) = some cs := by
  induction cs with
  | nil => rfl
  | cons c cs ih =>
    have hvalid : c.toNat < 0xD800 ∨ 0xDFFF < c.toNat ∧ c.toNat < 0x110000 := c.valid
    rw [List.map_cons, joinSurrogates.eq_def]
    dsimp only
    rw [if_neg (by omega), if_neg (by omega), ih, Option.map_some, Char.ofNat_toNat]

theorem hexDigit?_hexChar : ∀ n < 16, hexDigit? (hexChar n) = some n := by decide

theorem run_escapeChar {units : List Nat} (c : Char) :
    run ⟨.quoted units, b⟩ (escapeChar c ++ rest) = run ⟨.quoted (c.toNat :: units), b⟩ rest := by
  -- an escape of two characters
  have hescape (e : Char) (n : Nat) (he : e ≠ 'u') (hn : escape? e = some n) :
      run ⟨.quoted units, b⟩ ('\\' :: e :: rest) = run ⟨.quoted (n :: units), b⟩ rest := by
    have hbackslash : (Lexer.quoted units).step '\\' = some ([], .escaped units) := rfl
    have hstep : (Lexer.escaped units).step e = some ([], .quoted (n :: units)) := by
      rw [Lexer.step, if_neg he, hn, Option.map_some]
    rw [run_cons_silent hbackslash, run_cons_silent hstep]
  unfold escapeChar
  split
  · next h => subst h; exact hescape '"' _ (by decide) rfl
  split
  · next h => subst h; exact hescape '\\' _ (by decide) rfl
  split
  · next h => subst h; exact hescape 'n' _ (by decide) rfl
  split
  · next h => subst h; exact hescape 'r' _ (by decide) rfl
  split
  · next h => subst h; exact hescape 't' _ (by decide) rfl
  split
  · next h => subst h; exact hescape 'b' _ (by decide) rfl
  split
  · next h => subst h; exact hescape 'f' _ (by decide) rfl
  split
  · next h =>
    have hhigh := hexDigit?_hexChar (c.toNat / 16) (by omega)
    have hlow := hexDigit?_hexChar (c.toNat % 16) (by omega)
    have hvalue : c.toNat / 16 * 16 + c.toNat % 16 = c.toNat := by omega
    have hunit (value left d : Nat) (e : Char) (he : hexDigit? e = some d) :
        (Lexer.codeUnit units value (left + 1)).step e =
          some ([], .codeUnit units (value * 16 + d) left) := by
      rw [Lexer.step, he, Option.map_some]
    have hlast (value d : Nat) (e : Char) (he : hexDigit? e = some d) :
        (Lexer.codeUnit units value 0).step e = some ([], .quoted ((value * 16 + d) :: units)) := by
      rw [Lexer.step, he, Option.map_some]
    have hbackslash : (Lexer.quoted units).step '\\' = some ([], .escaped units) := rfl
    have hu : (Lexer.escaped units).step 'u' = some ([], .codeUnit units 0 3) := rfl
    simp only [List.cons_append, List.nil_append]
    rw [run_cons_silent hbackslash, run_cons_silent hu, run_cons_silent (hunit 0 2 0 '0' rfl),
      run_cons_silent (hunit _ 1 0 '0' rfl), run_cons_silent (hunit _ 0 _ _ hhigh),
      run_cons_silent (hlast _ _ _ hlow)]
    simp only [Nat.zero_mul, Nat.zero_add, hvalue]
  · next hquote hbackslash _ _ _ _ _ hcontrol =>
    have hstep : (Lexer.quoted units).step c = some ([], .quoted (c.toNat :: units)) := by
      rw [Lexer.step, if_neg hquote, if_neg hbackslash, if_neg hcontrol]
    exact run_cons_silent hstep

theorem run_escaped {units : List Nat} (text : List Char) :
    run ⟨.quoted units, b⟩ (text.flatMap escapeChar ++ rest) =
      run ⟨.quoted ((text.map Char.toNat).reverse ++ units), b⟩ rest := by
  induction text generalizing units with
  | nil => rfl
  | cons c text ih =>
    rw [List.flatMap_cons, List.append_assoc, run_escapeChar, ih, List.map_cons, List.reverse_cons,
      List.append_assoc, List.singleton_append]

/-- A text in quotes is read as the text. -/
theorem run_quote_eq {s : String} : run ⟨.between, b⟩ ((quote s).toList ++ rest) =
    (b.step (.text (some s))).bind fun b' => run ⟨.between, b'⟩ rest := by
  have hopen : Lexer.between.step '"' = some ([], .quoted []) := rfl
  have hclose : (Lexer.quoted (s.toList.map Char.toNat).reverse).step '"' =
      some ([.text (some s)], .between) := by
    rw [Lexer.step, if_pos rfl, List.reverse_reverse, joinSurrogates_map_toNat, Option.map_some,
      String.ofList_toList]
  rw [quote, String.toList_ofList, List.append_assoc, List.cons_append, run_cons_silent hopen,
    run_escaped, List.append_nil, List.singleton_append, run_cons_eq, hclose, Option.bind_some,
    foldlM_singleton]

theorem run_quote {s : String} (hbuilder : b.step (.text (some s)) = some b') :
    run ⟨.between, b⟩ ((quote s).toList ++ rest) = run ⟨.between, b'⟩ rest := by
  rw [run_quote_eq, hbuilder, Option.bind_some]

/-! ## Numbers -/

theorem isWordChar_of_isDigit (h : c.isDigit = true) : IsWordChar c := by
  have hnot (d : Char) (hd : d.isDigit = false) : c ≠ d := by
    rintro rfl
    rw [h] at hd
    cases hd
  refine ⟨?_, hnot _ (by decide), ?_⟩
  · simp [isSpace, hnot ' ' (by decide), hnot '\n' (by decide), hnot '\t' (by decide),
      hnot '\r' (by decide)]
  · unfold mark?
    split <;> first | rfl | exact absurd h (by decide)

/-- A number is written as a word. -/
theorem isWordChar_of_mem_text {v : Number} (h : c ∈ (v.text "e+").toList) : IsWordChar c := by
  have hexponent : ∀ c ∈ "e+".toList, IsWordChar c := isWordChar_of_all rfl
  rcases Number.isChar_text v c h with hdigit | rfl | rfl | rfl | hrise
  · exact isWordChar_of_isDigit hdigit
  · decide
  · decide
  · decide
  · exact hexponent c hrise

/-! ## Documents -/

variable {n : Nat} {d : Datum} {items : List Datum} {ms done : List (String × Datum)}
  {fs : List Frame} {e : Expect}

/-- A value may come next. -/
def Expect.IsOpen (e : Expect) : Prop := e = .value ∨ e = .valueOrClose

theorem step_scalar (he : e.IsOpen) : Builder.step ⟨fs, e⟩ (.scalar d) = some (Builder.put d fs) := by
  rcases he with rfl | rfl <;> rfl

theorem step_text {s : String} (he : e.IsOpen) :
    Builder.step ⟨fs, e⟩ (.text (some s)) = some (Builder.put (.text s) fs) := by
  rcases he with rfl | rfl <;> rfl

theorem step_openList (he : e.IsOpen) :
    Builder.step ⟨fs, e⟩ .openList = some ⟨.items [] :: fs, .valueOrClose⟩ := by
  rcases he with rfl | rfl <;> rfl

theorem step_openRecord (he : e.IsOpen) :
    Builder.step ⟨fs, e⟩ .openRecord = some ⟨.members [] none :: fs, .keyOrClose⟩ := by
  rcases he with rfl | rfl <;> rfl

/-- At any place the text of the document is read as what there is room for. -/
def ReadsBack (d : Datum) : Prop :=
  ∀ (fs : List Frame) (e : Expect) (rest : List Char), e.IsOpen → Ends rest →
    run ⟨.between, ⟨fs, e⟩⟩ ((compact d).toList ++ rest) =
      run ⟨.between, .put (d.seen (maxDepth - fs.length)) fs⟩ rest

theorem readsBack_of_isLegible (h : IsLegible d) : ReadsBack d := by
  intro fs e rest he hrest
  cases d with
  | null =>
    have hword : ∀ c ∈ "null".toList, IsWordChar c := isWordChar_of_all rfl
    exact run_word (by decide) hword rfl (step_scalar he) hrest
  | bool b =>
    cases b with
    | true =>
      have hword : ∀ c ∈ "true".toList, IsWordChar c := isWordChar_of_all rfl
      exact run_word (by decide) hword rfl (step_scalar he) hrest
    | false =>
      have hword : ∀ c ∈ "false".toList, IsWordChar c := isWordChar_of_all rfl
      exact run_word (by decide) hword rfl (step_scalar he) hrest
  | number v =>
    obtain ⟨v', hv⟩ := h
    have hne : (v.text "e+").toList ≠ [] := by
      intro hnil
      rw [Datum.numberToken?, hnil] at hv
      cases hv
    rw [Datum.seen_number, Datum.seenNumber, hv]
    exact run_word hne (fun c => isWordChar_of_mem_text) hv (step_scalar he) hrest
  | text s =>
    rw [compact, run_quote (step_text he), Datum.seen_text]
  | _ => exact h.elim

theorem ends_cons (h : (mark? c).isSome = true) : Ends (c :: cs) := by
  intro d hd
  cases hd
  exact h

/-- What there is room for of a list that is closed. -/
theorem close_items (depth : Nat) :
    Builder.close depth (.items (items.map (Datum.seen (maxDepth - (depth + 1)))).reverse) =
      (Datum.list items).seen (maxDepth - depth) := by
  rw [Builder.close, List.reverse_reverse]
  split
  · next hdepth =>
    have hroom : maxDepth - depth = maxDepth - (depth + 1) + 1 := by omega
    rw [hroom, Datum.seen_list_succ]
  · next hdepth =>
    have hroom : maxDepth - depth = 0 := by omega
    rw [hroom, Datum.seen_list_zero]

theorem step_closeList (he : e = .valueOrClose ∨ e = .commaOrClose) :
    Builder.step ⟨.items items :: fs, e⟩ .closeList =
      some (.put (Builder.close fs.length (.items items)) fs) := by
  rcases he with rfl | rfl <;> rfl

/-- The items of a list, up to the bracket behind them. -/
theorem run_compactItems (before : List Datum) (hitems : ∀ d ∈ items, ReadsBack d)
    (hne : items ≠ []) (he : e.IsOpen) :
    run ⟨.between, ⟨.items before.reverse :: fs, e⟩⟩ ((compactItems items).toList ++ ']' :: rest) =
      run ⟨.between, .put (Builder.close fs.length (.items
        (before ++ items.map (Datum.seen (maxDepth - (fs.length + 1)))).reverse)) fs⟩ rest := by
  induction items generalizing before e with
  | nil => exact absurd rfl hne
  | cons d items ih =>
    obtain ⟨hd, hitems⟩ := List.forall_mem_cons.mp hitems
    have hput : Builder.put (d.seen (maxDepth - (fs.length + 1))) (.items before.reverse :: fs) =
        ⟨.items (before ++ [d.seen (maxDepth - (fs.length + 1))]).reverse :: fs, .commaOrClose⟩ := by
      rw [Builder.put, List.reverse_append]
      rfl
    cases items with
    | nil =>
      rw [compactItems, hd _ _ _ he (ends_cons rfl), List.length_cons, hput,
        run_mark rfl (step_closeList (.inr rfl)), List.map_singleton]
    | cons d' items =>
      have hcomma (done : List Datum) : Builder.step ⟨.items done :: fs, .commaOrClose⟩ .comma =
          some ⟨.items done :: fs, .value⟩ := rfl
      have hrest := ih (before ++ [d.seen (maxDepth - (fs.length + 1))]) hitems
        (List.cons_ne_nil _ _) (.inl rfl)
      rw [List.append_assoc, List.singleton_append, ← List.map_cons] at hrest
      rw [compactItems.eq_3 _ _ (List.cons_ne_nil _ _), String.toList_append, String.toList_append,
        List.append_assoc, List.append_assoc, ← hrest]
      refine (hd _ _ _ he (ends_cons (c := ',') rfl)).trans ?_
      rw [List.length_cons, hput]
      exact run_mark rfl (hcomma _)

/-- The members of a record on the stack, with their keys. -/
def keyed (m : String × Datum) : Option String × Datum := (some m.1, m.2)

/-- What there is room for of a member. -/
def seenMember (n : Nat) (m : String × Datum) : String × Datum := (m.1, m.2.seen n)

/-- What there is room for of a record that is closed. -/
theorem close_members (depth : Nat) (key : Option String) :
    Builder.close depth
        (.members ((ms.map (seenMember (maxDepth - (depth + 1)))).map keyed).reverse key) =
      (Datum.record ms).seen (maxDepth - depth) := by
  have hkeys {f : Option String × Datum → Option (String × Datum)} (ms : List (String × Datum))
      (hf : ∀ m, f (keyed m) = some m) : (ms.map keyed).mapM f = some ms :=
    Datum.mapM_map fun m _ => hf m
  rw [Builder.close, List.reverse_reverse, hkeys _ fun m => rfl]
  by_cases hdepth : depth < maxDepth
  · have hroom : maxDepth - depth = maxDepth - (depth + 1) + 1 := by omega
    rw [hroom, Datum.seen_record_succ]
    exact if_pos hdepth
  · have hroom : maxDepth - depth = 0 := by omega
    rw [hroom, Datum.seen_record_zero]
    exact if_neg hdepth

theorem step_closeRecord {done : List (Option String × Datum)} {key : Option String}
    (he : e = .keyOrClose ∨ e = .commaOrClose) :
    Builder.step ⟨.members done key :: fs, e⟩ .closeRecord =
      some (.put (Builder.close fs.length (.members done key)) fs) := by
  rcases he with rfl | rfl <;> rfl

/-- The members of a record, up to the brace behind them. -/
theorem run_compactMembers (before : List (String × Datum)) (key : Option String)
    (hms : ∀ m ∈ ms, ReadsBack m.2) (hne : ms ≠ []) (he : e = .key ∨ e = .keyOrClose) :
    run ⟨.between, ⟨.members (before.map keyed).reverse key :: fs, e⟩⟩
        ((compactMembers ms).toList ++ '\x7d' :: rest) =
      run ⟨.between, .put (Builder.close fs.length (.members
        ((before ++ ms.map (seenMember (maxDepth - (fs.length + 1)))).map keyed).reverse none))
          fs⟩ rest := by
  induction ms generalizing before key e with
  | nil => exact absurd rfl hne
  | cons m ms ih =>
    obtain ⟨hm, hms⟩ := List.forall_mem_cons.mp hms
    have hkey : Builder.step ⟨.members (before.map keyed).reverse key :: fs, e⟩ (.text (some m.1)) =
        some ⟨.members (before.map keyed).reverse (some m.1) :: fs, .colon⟩ := by
      rcases he with rfl | rfl <;> rfl
    have hcolon : Builder.step ⟨.members (before.map keyed).reverse (some m.1) :: fs, .colon⟩ .colon =
        some ⟨.members (before.map keyed).reverse (some m.1) :: fs, .value⟩ := rfl
    have hput : Builder.put (m.2.seen (maxDepth - (fs.length + 1)))
          (.members (before.map keyed).reverse (some m.1) :: fs) =
        ⟨.members ((before ++ [seenMember (maxDepth - (fs.length + 1)) m]).map keyed).reverse none ::
          fs, .commaOrClose⟩ := by
      rw [Builder.put, List.map_append, List.reverse_append]
      rfl
    -- the key, the colon and the value
    have hmember (cs : List Char) (hends : Ends cs) :
        run ⟨.between, ⟨.members (before.map keyed).reverse key :: fs, e⟩⟩
            ((quote m.1).toList ++ ':' :: ((compact m.2).toList ++ cs)) =
          run ⟨.between, ⟨.members ((before ++ [seenMember (maxDepth - (fs.length + 1)) m]).map
            keyed).reverse none :: fs, .commaOrClose⟩⟩ cs := by
      rw [run_quote hkey, run_mark rfl hcolon, hm _ _ _ (.inl rfl) hends, List.length_cons, hput]
    cases ms with
    | nil =>
      rw [compactMembers, String.toList_append, String.toList_append, List.append_assoc,
        List.append_assoc]
      exact (hmember _ (ends_cons rfl)).trans (run_mark rfl (step_closeRecord (.inr rfl)))
    | cons m' ms =>
      have hcomma (done : List (Option String × Datum)) :
          Builder.step ⟨.members done none :: fs, .commaOrClose⟩ .comma =
            some ⟨.members done none :: fs, .key⟩ := rfl
      have hrest := ih (before ++ [seenMember (maxDepth - (fs.length + 1)) m]) none hms
        (List.cons_ne_nil _ _) (.inl rfl)
      rw [List.append_assoc, List.singleton_append, ← List.map_cons] at hrest
      rw [compactMembers.eq_3 _ _ _ (List.cons_ne_nil _ _), ← hrest]
      simp only [String.toList_append, List.append_assoc]
      exact (hmember _ (ends_cons rfl)).trans (run_mark rfl (hcomma _))

/-- A document is read as what there is room for, wherever it stands. -/
theorem run_compact (h : Nested IsLegible n d) : ReadsBack d := by
  induction h with
  | leaf h => exact readsBack_of_isLegible h
  | @list n items _ ih =>
    intro fs e rest he hrest
    rw [compact, String.toList_append, String.toList_append, List.append_assoc, List.append_assoc]
    refine (run_mark (c := '[') rfl (step_openList he)).trans ?_
    rw [← close_items]
    cases items with
    | nil => exact run_mark rfl (step_closeList (.inl rfl))
    | cons d items => exact run_compactItems [] ih (List.cons_ne_nil _ _) (.inr rfl)
  | @record n ms _ ih =>
    intro fs e rest he hrest
    rw [compact, String.toList_append, String.toList_append, List.append_assoc, List.append_assoc]
    refine (run_mark (c := '\x7b') rfl (step_openRecord he)).trans ?_
    rw [← close_members fs.length none]
    cases ms with
    | nil => exact run_mark rfl (step_closeRecord (.inl rfl))
    | cons m ms => exact run_compactMembers [] none ih (List.cons_ne_nil _ _) (.inr rfl)

/-- **What is written is read**, as far as there is room for it. -/
theorem parse_compact_of_isLegible (h : Nested IsLegible n d) :
    parse (compact d) = some (d.seen maxDepth) := by
  have hends : Ends [] := fun c hc => nomatch hc
  have hrun := run_compact h [] .value [] (.inl rfl) hends
  rw [List.append_nil] at hrun
  exact (parse_eq_run (compact d)).trans hrun

/-- What is written as what it is is read back, down to the depth that is read. -/
theorem parse_compact (h : Nested IsWritten maxDepth d) : parse (compact d) = some d := by
  rw [parse_compact_of_isLegible (h.imp fun _ => Datum.isLegible_of_isWritten), h.seen_eq]

end SlashCommand.Json
