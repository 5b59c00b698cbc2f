import SlashCommand.Proofs.Json.RoundTrip

/-!
# Layout does not matter

A document that is written with indentation is read as the one that is written without
(`parse_pretty`).

The reader passes over spaces between tokens, but what stands behind a word completes it, and in the
two layouts that need not be the same character.  So two texts are compared that the reader takes
alike where a value has just been written, whether or not this is a word that is still open
(`Alike`).
-/

namespace SlashCommand.Json

variable {b : Builder} {t : Token} {c : Char} {cs cs' gap word : List Char} {d : Datum}
  {items : List Datum} {ms : List (String × Datum)} {level : Nat}

theorem run_spaces (hgap : ∀ c ∈ gap, isSpace c = true) :
    run ⟨.between, b⟩ (gap ++ cs) = run ⟨.between, b⟩ cs := by
  induction gap with
  | nil => rfl
  | cons c gap ih =>
    obtain ⟨hc, hgap⟩ := List.forall_mem_cons.mp hgap
    have hstep : Lexer.between.step c = some ([], .between) := by
      rw [Lexer.step, Lexer.begin, if_pos hc]
      rfl
    rw [List.cons_append, run_cons_silent hstep, ih hgap]

/-- A space or a mark completes a word, and is taken for itself then. -/
theorem run_word_eq (hc : isSpace c = true ∨ (mark? c).isSome = true) :
    run ⟨.word word, b⟩ (c :: cs) =
      (wordToken? word).bind fun t => (b.step t).bind fun b' => run ⟨.between, b'⟩ (c :: cs) := by
  have hcond : isSpace c = true ∨ c = '"' ∨ (mark? c).isSome = true := hc.imp_right .inr
  simp only [run_cons_eq, Lexer.step, if_pos hcond, Option.bind_eq_bind, Option.bind_assoc,
    Option.bind_some, List.foldlM_cons]

/-- The reader takes the two texts alike behind a value. -/
def Alike (cs cs' : List Char) : Prop :=
  ∀ (l : Lexer) (b : Builder), (l = .between ∨ ∃ word, l = .word word) →
    run ⟨l, b⟩ cs = run ⟨l, b⟩ cs'

theorem Alike.refl (cs : List Char) : Alike cs cs := fun _ _ _ => rfl

theorem Alike.trans {cs'' : List Char} (h : Alike cs cs') (h' : Alike cs' cs'') : Alike cs cs'' :=
  fun l b hl => (h l b hl).trans (h' l b hl)

theorem run_mark_congr (hmark : mark? c = some t)
    (h : ∀ b, run ⟨.between, b⟩ cs = run ⟨.between, b⟩ cs') :
    run ⟨.between, b⟩ (c :: cs) = run ⟨.between, b⟩ (c :: cs') := by
  rw [run_mark_eq hmark, run_mark_eq hmark]
  exact congrArg _ (funext h)

/-- What follows a mark is read alike if it is where a token may begin. -/
theorem alike_mark (hmark : mark? c = some t)
    (h : ∀ b, run ⟨.between, b⟩ cs = run ⟨.between, b⟩ cs') : Alike (c :: cs) (c :: cs') := by
  rintro _ b (rfl | ⟨word, rfl⟩)
  · exact run_mark_congr hmark h
  · have hc : isSpace c = true ∨ (mark? c).isSome = true := .inr (by rw [hmark]; rfl)
    rw [run_word_eq hc, run_word_eq hc, funext fun t => congrArg _ (funext fun b' =>
      run_mark_congr hmark h)]

/-- Spaces may stand before a mark. -/
theorem alike_spaces (hgap : ∀ c ∈ gap, isSpace c = true) (hmark : mark? c = some t) :
    Alike (gap ++ c :: cs) (c :: cs) := by
  rintro _ b (rfl | ⟨word, rfl⟩)
  · exact run_spaces hgap
  · have hc : isSpace c = true ∨ (mark? c).isSome = true := .inr (by rw [hmark]; rfl)
    cases gap with
    | nil => rfl
    | cons g gap =>
      have hg : isSpace g = true ∨ (mark? g).isSome = true := .inl (hgap g List.mem_cons_self)
      rw [List.cons_append, run_word_eq hg, run_word_eq hc]
      exact congrArg _ (funext fun t => congrArg _ (funext fun b' => run_spaces hgap))

theorem run_word_of_alike (hword : ∀ c ∈ word, IsWordChar c) (h : Alike cs cs') :
    run ⟨.between, b⟩ (word ++ cs) = run ⟨.between, b⟩ (word ++ cs') := by
  cases word with
  | nil => exact h _ b (.inl rfl)
  | cons c word =>
    obtain ⟨⟨hspace, hquote, hmark⟩, hword⟩ := List.forall_mem_cons.mp hword
    have hnone : mark? c = none := Option.not_isSome_iff_eq_none.mp (Bool.eq_false_iff.mp hmark)
    have hstep : Lexer.between.step c = some ([], .word [c]) := by
      simp [Lexer.step, Lexer.begin, hspace, hquote, hnone]
    rw [List.cons_append, List.cons_append, run_cons_silent hstep, run_cons_silent hstep,
      run_wordChars hword, run_wordChars hword]
    exact h _ b (.inr ⟨_, rfl⟩)

/-- The document is read alike in both layouts. -/
def LaysOut (d : Datum) : Prop :=
  ∀ (level : Nat) (b : Builder) (cs cs' : List Char), Alike cs cs' →
    run ⟨.between, b⟩ ((prettyAt level d).toList ++ cs) =
      run ⟨.between, b⟩ ((compact d).toList ++ cs')

theorem run_quote_of_alike {s : String} (h : Alike cs cs') :
    run ⟨.between, b⟩ ((quote s).toList ++ cs) = run ⟨.between, b⟩ ((quote s).toList ++ cs') := by
  rw [run_quote_eq, run_quote_eq]
  exact congrArg _ (funext fun b' => h _ b' (.inl rfl))

theorem isSpace_of_mem_newline : ∀ c ∈ (newline level).toList, isSpace c = true := by
  have hbreak : ∀ c ∈ "\n".toList, isSpace c = true := List.forall_mem_singleton.mpr rfl
  rw [newline, String.toList_append]
  refine List.forall_mem_append.mpr ⟨hbreak, fun c hc => ?_⟩
  rw [String.toList_ofList] at hc
  obtain rfl := List.eq_of_mem_replicate hc
  rfl

/-- The items of a list, up to the bracket behind them. -/
theorem run_prettyItems (hitems : ∀ d ∈ items, LaysOut d) (hne : items ≠ [])
    (h : Alike cs cs') :
    run ⟨.between, b⟩ ((prettyItems level items).toList ++ cs) =
      run ⟨.between, b⟩ ((compactItems items).toList ++ cs') := by
  induction items generalizing b with
  | nil => exact absurd rfl hne
  | cons d items ih =>
    obtain ⟨hd, hitems⟩ := List.forall_mem_cons.mp hitems
    cases items with
    | nil =>
      rw [prettyItems, compactItems, String.toList_append, List.append_assoc,
        run_spaces isSpace_of_mem_newline]
      exact hd _ _ _ _ h
    | cons d' items =>
      rw [prettyItems.eq_3 _ _ _ (List.cons_ne_nil _ _), compactItems.eq_3 _ _ (List.cons_ne_nil _ _)]
      simp only [String.toList_append, List.append_assoc]
      rw [run_spaces isSpace_of_mem_newline]
      refine hd _ _ _ _ ?_
      exact alike_mark (c := ',') rfl fun b => ih hitems (List.cons_ne_nil _ _)

/-- The members of a record, up to the brace behind them. -/
theorem run_prettyMembers (hms : ∀ m ∈ ms, LaysOut m.2) (hne : ms ≠ []) (h : Alike cs cs') :
    run ⟨.between, b⟩ ((prettyMembers level ms).toList ++ cs) =
      run ⟨.between, b⟩ ((compactMembers ms).toList ++ cs') := by
  induction ms generalizing b with
  | nil => exact absurd rfl hne
  | cons m ms ih =>
    obtain ⟨hm, hms⟩ := List.forall_mem_cons.mp hms
    -- the key, the colon and the value
    have hmember {cs cs' : List Char} (h : Alike cs cs') :
        run ⟨.between, b⟩ ((newline level).toList ++ ((quote m.1).toList ++
            (": ".toList ++ ((prettyAt level m.2).toList ++ cs)))) =
          run ⟨.between, b⟩
            ((quote m.1).toList ++ (":".toList ++ ((compact m.2).toList ++ cs'))) := by
      have hspace : ": ".toList = [':', ' '] := rfl
      have hnone : ":".toList = [':'] := rfl
      rw [run_spaces isSpace_of_mem_newline, hspace, hnone]
      refine run_quote_of_alike ?_
      refine alike_mark rfl fun b => ?_
      exact (run_spaces (List.forall_mem_singleton.mpr rfl)).trans (hm level b cs cs' h)
    cases ms with
    | nil =>
      rw [prettyMembers, compactMembers]
      simp only [String.toList_append, List.append_assoc]
      exact hmember h
    | cons m' ms =>
      rw [prettyMembers.eq_3 _ _ _ _ (List.cons_ne_nil _ _),
        compactMembers.eq_3 _ _ _ (List.cons_ne_nil _ _)]
      simp only [String.toList_append, List.append_assoc]
      refine hmember ?_
      exact alike_mark (c := ',') rfl fun b => ih hms (List.cons_ne_nil _ _)

/-- What is no list and no record is written in one way. -/
theorem run_compact_of_alike (hlist : ∀ items, d ≠ .list items) (hrecord : ∀ ms, d ≠ .record ms)
    (h : Alike cs cs') :
    run ⟨.between, b⟩ ((compact d).toList ++ cs) = run ⟨.between, b⟩ ((compact d).toList ++ cs') := by
  have hnull : ∀ c ∈ "null".toList, IsWordChar c := isWordChar_of_all rfl
  cases d with
  | null => exact run_word_of_alike hnull h
  | bool v =>
    have hbool : ∀ c ∈ (compact (.bool v)).toList, IsWordChar c := by
      cases v <;> exact isWordChar_of_all rfl
    exact run_word_of_alike hbool h
  | number v => exact run_word_of_alike (fun c => isWordChar_of_mem_text) h
  | text s => exact run_quote_of_alike h
  | plain s => exact run_quote_of_alike h
  | tagged tag quoted s => exact run_quote_of_alike h
  | list items => exact absurd rfl (hlist items)
  | record ms => exact absurd rfl (hrecord ms)
  | mapping es => exact run_word_of_alike hnull h
  | unreadable => exact run_word_of_alike hnull h

theorem laysOut_of_scalar (hlist : ∀ items, d ≠ .list items) (hrecord : ∀ ms, d ≠ .record ms) :
    LaysOut d := by
  intro level b cs cs' h
  have hlayout : prettyAt level d = compact d := by
    cases d with
    | list items => exact absurd rfl (hlist items)
    | record ms => exact absurd rfl (hrecord ms)
    | _ => rfl
  rw [hlayout]
  exact run_compact_of_alike hlist hrecord h

theorem laysOut_list (hitems : ∀ d ∈ items, LaysOut d) : LaysOut (.list items) := by
  intro level b cs cs' h
  have hclose : Alike (']' :: cs) (']' :: cs') := alike_mark rfl fun b => h _ b (.inl rfl)
  have hopen : "[".toList = ['['] := rfl
  have hend : "]".toList = [']'] := rfl
  cases items with
  | nil =>
    have hpretty : (prettyAt level (.list [])).toList = ['[', ']'] := by rw [prettyAt]; rfl
    have hcompact : (compact (.list [])).toList = ['[', ']'] := by rw [compact, compactItems]; rfl
    rw [hpretty, hcompact]
    exact run_mark_congr rfl fun b => hclose _ b (.inl rfl)
  | cons d items =>
    rw [prettyAt, compact]
    simp only [String.toList_append, List.append_assoc, hopen, hend, List.cons_append,
      List.nil_append]
    exact run_mark_congr rfl fun b => run_prettyItems hitems (List.cons_ne_nil _ _)
      ((alike_spaces isSpace_of_mem_newline rfl).trans hclose)

theorem laysOut_record (hms : ∀ m ∈ ms, LaysOut m.2) : LaysOut (.record ms) := by
  intro level b cs cs' h
  have hclose : Alike ('\x7d' :: cs) ('\x7d' :: cs') := alike_mark rfl fun b => h _ b (.inl rfl)
  have hopen : "\x7b".toList = ['\x7b'] := rfl
  have hend : "\x7d".toList = ['\x7d'] := rfl
  cases ms with
  | nil =>
    have hpretty : (prettyAt level (.record [])).toList = ['\x7b', '\x7d'] := by rw [prettyAt]; rfl
    have hcompact : (compact (.record [])).toList = ['\x7b', '\x7d'] := by
      rw [compact, compactMembers]
      rfl
    rw [hpretty, hcompact]
    exact run_mark_congr rfl fun b => hclose _ b (.inl rfl)
  | cons m ms =>
    rw [prettyAt, compact]
    simp only [String.toList_append, List.append_assoc, hopen, hend, List.cons_append,
      List.nil_append]
    exact run_mark_congr rfl fun b => run_prettyMembers hms (List.cons_ne_nil _ _)
      ((alike_spaces isSpace_of_mem_newline rfl).trans hclose)

/-- Every document is read alike in both layouts. -/
theorem laysOut (d : Datum) : LaysOut d :=
  match d with
  | .list items => laysOut_list fun d _ => laysOut d
  | .record ms => laysOut_record fun m _ => laysOut m.2
  | .null => laysOut_of_scalar nofun nofun
  | .bool _ => laysOut_of_scalar nofun nofun
  | .number _ => laysOut_of_scalar nofun nofun
  | .text _ => laysOut_of_scalar nofun nofun
  | .plain _ => laysOut_of_scalar nofun nofun
  | .tagged .. => laysOut_of_scalar nofun nofun
  | .mapping _ => laysOut_of_scalar nofun nofun
  | .unreadable => laysOut_of_scalar nofun nofun
termination_by sizeOf d
decreasing_by
  · have hd := List.sizeOf_lt_of_mem ‹_›
    simp only [Datum.list.sizeOf_spec]
    omega
  · have hm := List.sizeOf_lt_of_mem ‹_›
    have hvalue : sizeOf m.2 < sizeOf m := by cases m; simp +arith
    simp only [Datum.record.sizeOf_spec]
    omega

/-- **Layout does not matter**: a document that is written with indentation is read as the one that is
written without. -/
theorem parse_pretty (d : Datum) : parse (pretty d) = parse (compact d) := by
  have hrun := laysOut d 0 .start [] [] (.refl [])
  rwa [List.append_nil, List.append_nil] at hrun

end SlashCommand.Json
