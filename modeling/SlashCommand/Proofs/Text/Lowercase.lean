import SlashCommand.Proofs.Text.Words
import SlashCommand.Text.Lowercase

/-!
# Words in lower case

A label is cut out of a command as it is typed, and compared in lower case.  The two do not get in
each other's way, because lower-casing neither makes blanks nor takes them away: a text is a word
exactly if its lower case is one (`isWord_lowercase_iff`).

For the characters of ASCII this is checked one by one, and for the others run by run: no blank is
in a run of the table, and none is what a run maps to (`notBlank_of_mem_lowerRuns`).

Nor does it matter whether a word is cut out before or after the whole text is lower-cased, although
the lower case of a sigma depends on the characters around it.  These are looked through as far as
they are case-ignorable, and neither a blank nor the slash of a command is, nor do they have a case
(`IsUncased`).  So the first word of a command in lower case is the lower case of its first word
(`lowerAfter_slash`).
-/

namespace SlashCommand

namespace Text

/-- The code points of the blank characters. -/
def blankPoints : List Nat :=
  [0x9, 0xA, 0xB, 0xC, 0xD, 0x20, 0x85, 0xA0, 0x1680, 0x2000, 0x2001, 0x2002, 0x2003, 0x2004,
    0x2005, 0x2006, 0x2007, 0x2008, 0x2009, 0x200A, 0x2028, 0x2029, 0x202F, 0x205F, 0x3000]

theorem isBlank_iff {c : Char} : isBlank c = true ↔ c.toNat ∈ blankPoints := by
  simp only [isBlank, blankPoints, Bool.or_eq_true, Bool.and_eq_true, decide_eq_true_eq, beq_iff_eq,
    List.mem_cons, List.not_mem_nil, or_false]
  omega

/-- A run has no blank in it, and maps nothing to a blank. -/
theorem notBlank_of_mem_lowerRuns : ∀ run ∈ lowerRuns, ∀ n ∈ blankPoints,
    run.contains n = false ∧ run.contains ((n : Int) - run.offset).toNat = false := by
  decide +kernel

/-- Lower-casing an ASCII character makes no blank of it, nor another character of a blank. -/
theorem isBlank_toLower_of_lt {c : Char} (h : c.toNat < 128) : isBlank c.toLower = isBlank c := by
  have hall : ∀ n < 128, isBlank (Char.ofNat n).toLower = isBlank (Char.ofNat n) := by
    decide +kernel
  have hc := hall c.toNat h
  rwa [Char.ofNat_toNat] at hc

/-- A character that a code point names is blank only if the code point is that of a blank. -/
theorem mem_blankPoints_of_isBlank {n : Nat} (h : isBlank (Char.ofNat n) = true) :
    n ∈ blankPoints := by
  have hmem := isBlank_iff.mp h
  by_cases hn : n.isValidChar
  · have hpoint : (Char.ofNat n).toNat = n := by
      rw [Char.ofNat, dif_pos hn]
      rfl
    rwa [hpoint] at hmem
  · -- what is no code point names the null character
    rw [Char.ofNat, dif_neg hn] at hmem
    exact absurd hmem (by decide)

/-- Lower-casing a character makes no blank of it, nor another character of a blank. -/
theorem isBlank_lowerChar (c : Char) : isBlank (lowerChar c) = isBlank c := by
  unfold lowerChar
  split
  · rename_i hascii
    exact isBlank_toLower_of_lt hascii
  · split
    · rename_i run hrun
      have hmem := List.mem_of_find?_eq_some hrun
      have hcontains : run.contains c.toNat = true := by
        simpa using List.find?_some hrun
      have hsource : isBlank c = false := by
        refine Bool.eq_false_iff.mpr fun hblank => ?_
        have hnot := (notBlank_of_mem_lowerRuns run hmem _ (isBlank_iff.mp hblank)).1
        rw [hcontains] at hnot
        cases hnot
      rw [hsource]
      refine Bool.eq_false_iff.mpr fun hblank => ?_
      have hpoint := mem_blankPoints_of_isBlank hblank
      have hpos : ∀ n ∈ blankPoints, 0 < n := by decide
      have hback : ((((c.toNat : Int) + run.offset).toNat : Int) - run.offset).toNat = c.toNat := by
        have := hpos _ hpoint
        omega
      have hnot := (notBlank_of_mem_lowerRuns run hmem _ hpoint).2
      rw [hback, hcontains] at hnot
      cases hnot
    · rfl

/-- Neither form of the small sigma is blank. -/
theorem isBlank_lowerSigma (before after : List Char) :
    isBlank (lowerSigma before after) = false := by
  unfold lowerSigma
  split
  · decide
  · decide

/-- What stands for a character in lower case is a word exactly if the character is not blank. -/
theorem isWord_lowerAfter_iff {before text : List Char} :
    IsWord (lowerAfter before text) ↔ IsWord text := by
  induction text generalizing before with
  | nil => exact Iff.rfl
  | cons c text ih =>
    rw [lowerAfter, IsWord, List.forall_mem_append, IsWord, List.forall_mem_cons]
    refine and_congr ?_ ih
    by_cases hsigma : c = 'Σ'
    · rw [if_pos hsigma, List.forall_mem_singleton, isBlank_lowerSigma, hsigma]
      decide
    · rw [if_neg hsigma]
      by_cases hdotted : c = 'İ'
      · rw [if_pos hdotted, hdotted]
        decide
      · rw [if_neg hdotted, List.forall_mem_singleton, isBlank_lowerChar]

/-- A text is a word exactly if its lower case is one. -/
theorem isWord_lowercase_iff {s : String} : IsWord (lowercase s).toList ↔ IsWord s.toList := by
  rw [lowercase, String.toList_ofList]
  exact isWord_lowerAfter_iff

theorem lowerAfter_eq_nil_iff {before text : List Char} :
    lowerAfter before text = [] ↔ text = [] := by
  cases text with
  | nil => exact Iff.rfl
  | cons c text =>
    rw [lowerAfter]
    split
    · exact iff_of_false (List.cons_ne_nil _ _) (List.cons_ne_nil _ _)
    · split
      · exact iff_of_false (List.cons_ne_nil _ _) (List.cons_ne_nil _ _)
      · exact iff_of_false (List.cons_ne_nil _ _) (List.cons_ne_nil _ _)

/-- Only the empty text has an empty lower case. -/
theorem lowercase_eq_empty_iff {s : String} : lowercase s = "" ↔ s = "" := by
  rw [← String.toList_eq_nil_iff, lowercase, String.toList_ofList, ← String.toList_eq_nil_iff]
  exact lowerAfter_eq_nil_iff

/-! ## Words of a text -/

/-- The character has no case, and it is not passed over where one is looked for. -/
def IsUncased (c : Char) : Prop :=
  inRanges caseIgnorableRanges c.toNat = false ∧ inRanges casedRanges c.toNat = false

instance (c : Char) : Decidable (IsUncased c) :=
  inferInstanceAs (Decidable (_ ∧ _))

theorem isUncased_of_isBlank {c : Char} (h : isBlank c = true) : IsUncased c := by
  have hall : ∀ n ∈ blankPoints,
      inRanges caseIgnorableRanges n = false ∧ inRanges casedRanges n = false := by
    decide +kernel
  exact hall c.toNat (isBlank_iff.mp h)

theorem isUncased_slash : IsUncased '/' := by decide +kernel

variable {c d : Char} {before text rest w r : List Char}

/-- Behind a character without case nothing is looked for. -/
theorem startsCased_append (hd : IsUncased d) :
    startsCased (text ++ d :: rest) = startsCased text := by
  induction text with
  | nil =>
    rw [List.nil_append, startsCased, List.dropWhile_cons_of_neg (by simp [hd.1])]
    exact hd.2
  | cons c text ih =>
    unfold startsCased at ih ⊢
    cases hc : inRanges caseIgnorableRanges c.toNat with
    | true => simpa only [List.cons_append, List.dropWhile_cons, hc, if_true] using ih
    | false =>
      simp only [List.cons_append, List.dropWhile_cons, hc, Bool.false_eq_true, if_false]

theorem startsCased_append_of_startsBlank (hr : StartsBlank r) :
    startsCased (w ++ r) = startsCased w := by
  cases r with
  | nil => rw [List.append_nil]
  | cons c r => exact startsCased_append (isUncased_of_isBlank (hr c rfl))

/-- What is in front of a character without case does not matter behind it. -/
theorem lowerAfter_behind (hd : IsUncased d) (text : List Char) :
    lowerAfter (before ++ d :: rest) text = lowerAfter before text := by
  induction text generalizing before with
  | nil => rfl
  | cons c text ih =>
    have htail : lowerAfter (c :: before ++ d :: rest) text = lowerAfter (c :: before) text := ih
    rw [List.cons_append] at htail
    rw [lowerAfter, lowerAfter, htail, lowerSigma, lowerSigma, startsCased_append hd]

/-- A blank parts a text, and the parts can be lower-cased one by one. -/
theorem lowerAfter_append (hr : StartsBlank r) :
    lowerAfter before (w ++ r) = lowerAfter before w ++ lowerAfter (w.reverse ++ before) r := by
  induction w generalizing before with
  | nil => rfl
  | cons c w ih =>
    rw [List.cons_append, lowerAfter, lowerAfter, ih, lowerSigma, lowerSigma,
      startsCased_append_of_startsBlank hr, List.append_assoc, List.reverse_cons, List.append_assoc]
    rfl

/-- The lower case of a text begins with a blank if the text does. -/
theorem startsBlank_lowerAfter (hr : StartsBlank r) : StartsBlank (lowerAfter before r) := by
  cases r with
  | nil => exact startsBlank_nil
  | cons c r =>
    have hc : isBlank c = true := hr c rfl
    have hsigma : c ≠ 'Σ' := by
      rintro rfl
      cases hc
    have hdotted : c ≠ 'İ' := by
      rintro rfl
      cases hc
    rw [lowerAfter, if_neg hsigma, if_neg hdotted]
    exact startsBlank_cons ((isBlank_lowerChar c).trans hc)

/-! ## The slash -/

/-- Only a slash has a slash for its lower case. -/
theorem lowerChar_eq_slash_iff : lowerChar c = '/' ↔ c = '/' := by
  refine ⟨fun h => ?_, fun h => by rw [h]; decide⟩
  unfold lowerChar at h
  split at h
  · rename_i hascii
    have hall : ∀ n < 128, (Char.ofNat n).toLower = '/' → n = 47 := by decide +kernel
    have hpoint : c.toNat = 47 := hall c.toNat hascii (by rwa [Char.ofNat_toNat])
    rw [← Char.ofNat_toNat c, hpoint]
  · split at h
    · rename_i run hrun
      have hnone : ∀ run ∈ lowerRuns, run.contains ((47 : Int) - run.offset).toNat = false := by
        decide +kernel
      have hnot := hnone run (List.mem_of_find?_eq_some hrun)
      have hcontains : run.contains c.toNat = true := by simpa using List.find?_some hrun
      have himage : (c.toNat + run.offset).toNat = 47 := by
        have hpoint : (Char.ofNat (c.toNat + run.offset).toNat).toNat = 47 := by rw [h]; rfl
        by_cases hn : (c.toNat + run.offset).toNat.isValidChar
        · rwa [Char.ofNat, dif_pos hn] at hpoint
        · rw [Char.ofNat, dif_neg hn] at hpoint
          cases hpoint
      have hback : ((47 : Int) - run.offset).toNat = c.toNat := by omega
      rw [hback, hcontains] at hnot
      cases hnot
    · exact h

theorem lowerSigma_ne_slash (before after : List Char) : lowerSigma before after ≠ '/' := by
  unfold lowerSigma
  split
  · decide
  · decide

/-- Behind a slash a text has the lower case that it has alone. -/
theorem lowerAfter_slash (text : List Char) :
    lowerAfter [] ('/' :: text) = '/' :: lowerAfter [] text := by
  have hbehind : lowerAfter ([] ++ ['/']) text = lowerAfter [] text :=
    lowerAfter_behind isUncased_slash text
  have hslash : lowerChar '/' = '/' := lowerChar_eq_slash_iff.mpr rfl
  rw [lowerAfter, if_neg (by decide), if_neg (by decide), hslash, ← hbehind]
  rfl

/-- The lower case of a text begins with a slash only if the text does. -/
theorem exists_slash_of_lowerAfter (h : lowerAfter [] text = '/' :: rest) :
    ∃ r, text = '/' :: r := by
  cases text with
  | nil => cases h
  | cons c r =>
    refine ⟨r, congrArg (· :: r) ?_⟩
    rw [lowerAfter] at h
    split at h
    · exact absurd (List.cons.inj h).1 (lowerSigma_ne_slash [] r)
    · split at h
      · exact absurd (List.cons.inj h).1 (by decide)
      · exact lowerChar_eq_slash_iff.mp (List.cons.inj h).1

end Text

/-- A text in the lower case of a label that is a word is a word. -/
theorem isWord_of_lowercase_eq {s label : String} (h : Text.lowercase s = Text.lowercase label)
    (hlabel : label ≠ "" ∧ IsWord label.toList) : s ≠ "" ∧ IsWord s.toList := by
  refine ⟨fun hempty => hlabel.1 ?_, ?_⟩
  · rw [← Text.lowercase_eq_empty_iff, ← h, Text.lowercase_eq_empty_iff]
    exact hempty
  · rw [← Text.isWord_lowercase_iff, h, Text.isWord_lowercase_iff]
    exact hlabel.2

end SlashCommand
