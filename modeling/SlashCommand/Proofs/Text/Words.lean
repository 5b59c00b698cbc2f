import SlashCommand.Text.Blank

/-!
# Words and gaps

A command is made of words, which have no blanks in them, and gaps, which have nothing else.  Where
one ends and the other begins is seen from a single character, so that a text can be taken apart
from its beginning.

* `IsWord`, `IsGap`: the two kinds of parts.
* `StartsBlank`, `StartsPlain`: what the first character says.  The empty text starts either way.
* `exists_word`, `exists_gap`: a text begins with a maximal part of either kind.
* `firstWord`, `gapBehind`, `nextWord`: the parts that a text begins with.
-/

namespace SlashCommand

/-- A property of the characters of a text is decided from one to the next, and not by going through
all characters there are. -/
instance (priority := high) decidableForallChar (p : Char → Prop) [DecidablePred p]
    (text : List Char) : Decidable (∀ c ∈ text, p c) :=
  List.decidableBAll p text

instance (priority := high) decidableForallHead (p : Char → Prop) [DecidablePred p]
    (head : Option Char) : Decidable (∀ c ∈ head, p c) :=
  Option.decidableForallMem head

/-- No character is blank. -/
def IsWord (word : List Char) : Prop := ∀ c ∈ word, Text.isBlank c = false

/-- All characters are blank. -/
def IsGap (gap : List Char) : Prop := ∀ c ∈ gap, Text.isBlank c = true

/-- A text begins with a blank, if with anything. -/
def StartsBlank (text : List Char) : Prop := ∀ c ∈ text.head?, Text.isBlank c = true

/-- A text begins with no blank, if with anything. -/
def StartsPlain (text : List Char) : Prop := ∀ c ∈ text.head?, Text.isBlank c = false

instance (word : List Char) : Decidable (IsWord word) :=
  inferInstanceAs (Decidable (∀ c ∈ word, Text.isBlank c = false))

instance (gap : List Char) : Decidable (IsGap gap) :=
  inferInstanceAs (Decidable (∀ c ∈ gap, Text.isBlank c = true))

instance (text : List Char) : Decidable (StartsPlain text) :=
  inferInstanceAs (Decidable (∀ c ∈ text.head?, Text.isBlank c = false))

/-! ## Taking a text apart -/

/-- A text begins with a maximal run of characters of a kind. -/
theorem exists_run (p : Char → Prop) [DecidablePred p] (text : List Char) :
    ∃ w r, text = w ++ r ∧ (∀ c ∈ w, p c) ∧ ∀ c ∈ r.head?, ¬ p c := by
  induction text with
  | nil => exact ⟨[], [], rfl, nofun, nofun⟩
  | cons c text ih =>
    by_cases hc : p c
    · obtain ⟨w, r, htext, hw, hr⟩ := ih
      refine ⟨c :: w, r, by rw [htext]; rfl, ?_, hr⟩
      intro d hd
      rcases List.mem_cons.mp hd with rfl | hd
      · exact hc
      · exact hw d hd
    · refine ⟨[], c :: text, rfl, nofun, ?_⟩
      intro d hd
      rwa [← Option.some.inj hd]

/-- Behind a gap, nothing is left or the text begins with no blank. -/
theorem exists_gap (text : List Char) :
    ∃ gap rest, text = gap ++ rest ∧ IsGap gap ∧ StartsPlain rest := by
  obtain ⟨gap, rest, htext, hgap, hrest⟩ := exists_run (Text.isBlank · = true) text
  exact ⟨gap, rest, htext, hgap, fun c hc => by simpa using hrest c hc⟩

/-- The characters before the first blank. -/
def firstWord (text : List Char) : List Char := text.takeWhile fun c => !Text.isBlank c

/-- The text from its first blank on. -/
def behindWord (text : List Char) : List Char := text.dropWhile fun c => !Text.isBlank c

/-- The blanks behind the first word. -/
def gapBehind (text : List Char) : List Char := (behindWord text).takeWhile Text.isBlank

/-- The text from its second word on. -/
def nextWord (text : List Char) : List Char := (behindWord text).dropWhile Text.isBlank

theorem firstWord_append_behindWord (text : List Char) :
    firstWord text ++ behindWord text = text :=
  List.takeWhile_append_dropWhile

theorem isWord_firstWord (text : List Char) : IsWord (firstWord text) := by
  intro c hc
  have hnot := List.all_eq_true.mp List.all_takeWhile c hc
  simpa using hnot

/-- Behind a word stands a blank or nothing. -/
theorem startsBlank_behindWord (text : List Char) : StartsBlank (behindWord text) := by
  intro c hc
  have hhead := List.head?_dropWhile_not (fun c => !Text.isBlank c) text
  rw [behindWord] at hc
  rw [hc] at hhead
  simpa using hhead

theorem gapBehind_append_nextWord (text : List Char) :
    gapBehind text ++ nextWord text = behindWord text :=
  List.takeWhile_append_dropWhile

theorem isGap_gapBehind (text : List Char) : IsGap (gapBehind text) :=
  fun c hc => List.all_eq_true.mp List.all_takeWhile c hc

/-- A further word begins with no blank. -/
theorem startsPlain_nextWord (text : List Char) : StartsPlain (nextWord text) := by
  intro c hc
  have hhead := List.head?_dropWhile_not Text.isBlank (behindWord text)
  rw [nextWord] at hc
  rw [hc] at hhead
  simpa using hhead

/-- A word goes up to the next blank. -/
theorem exists_word (text : List Char) :
    ∃ w r, text = w ++ r ∧ IsWord w ∧ StartsBlank r :=
  ⟨firstWord text, behindWord text, (firstWord_append_behindWord text).symm,
    isWord_firstWord text, startsBlank_behindWord text⟩

theorem length_eq_words (text : List Char) :
    text.length = (firstWord text).length + (gapBehind text).length + (nextWord text).length := by
  have hsplit := firstWord_append_behindWord text
  rw [← gapBehind_append_nextWord, ← List.append_assoc] at hsplit
  have hlength := congrArg List.length hsplit
  rw [List.length_append, List.length_append] at hlength
  exact hlength.symm

/-- A further word leaves less text: a blank has been passed before it. -/
theorem length_nextWord_lt {text : List Char} (h : nextWord text ≠ []) :
    (nextWord text).length < text.length := by
  have hlength := length_eq_words text
  have hblank := startsBlank_behindWord text
  cases hb : behindWord text with
  | nil =>
    rw [nextWord, hb] at h
    exact absurd List.dropWhile_nil h
  | cons c r =>
    rw [hb] at hblank
    have hgap : gapBehind text = c :: r.takeWhile Text.isBlank := by
      rw [gapBehind, hb, List.takeWhile_cons_of_pos (hblank c rfl)]
    rw [hgap, List.length_cons] at hlength
    omega

/-! ## Beginnings -/

theorem startsBlank_nil : StartsBlank [] := by
  intro c hc
  cases hc

theorem startsBlank_cons {c : Char} {r : List Char} (hc : Text.isBlank c = true) :
    StartsBlank (c :: r) := by
  intro d hd
  rwa [← Option.some.inj hd]

theorem startsPlain_cons {c : Char} {r : List Char} (hc : Text.isBlank c = false) :
    StartsPlain (c :: r) := by
  intro d hd
  rwa [← Option.some.inj hd]

/-- A text that begins neither way has no beginning. -/
theorem eq_nil_of_startsBlank {text : List Char} (h : StartsBlank text) (h' : StartsPlain text) :
    text = [] := by
  cases text with
  | nil => rfl
  | cons c r =>
    have hblank : Text.isBlank c = true := h c rfl
    rw [h' c rfl] at hblank
    cases hblank

/-- What stands apart by a gap begins with a blank. -/
theorem startsBlank_append {gap rest : List Char} (hgap : IsGap gap) (h : gap = [] → rest = []) :
    StartsBlank (gap ++ rest) := by
  cases gap with
  | nil =>
    rw [h rfl]
    exact startsBlank_nil
  | cons c gap => exact startsBlank_cons (hgap c List.mem_cons_self)

/-- A text that begins with a word, and behind that with blanks unless it ends, is taken apart where
it was put together. -/
theorem parts_append {word gap text : List Char} (hword : IsWord word) (hgap : IsGap gap)
    (hnil : gap = [] → text = []) (htext : StartsPlain text) :
    firstWord (word ++ (gap ++ text)) = word ∧ behindWord (word ++ (gap ++ text)) = gap ++ text ∧
      gapBehind (word ++ (gap ++ text)) = gap ∧ nextWord (word ++ (gap ++ text)) = text := by
  have hnot : ∀ c ∈ word, (!Text.isBlank c) = true := by
    intro d hd
    rw [hword d hd]
    rfl
  have hplain : text.takeWhile Text.isBlank = [] ∧ text.dropWhile Text.isBlank = text := by
    cases text with
    | nil => exact ⟨rfl, rfl⟩
    | cons c r =>
      have hc : ¬ Text.isBlank c = true := by simp [htext c rfl]
      exact ⟨List.takeWhile_cons_of_neg hc, List.dropWhile_cons_of_neg hc⟩
  have hend : (gap ++ text).takeWhile (fun c => !Text.isBlank c) = [] ∧
      (gap ++ text).dropWhile (fun c => !Text.isBlank c) = gap ++ text := by
    cases gap with
    | nil =>
      rw [hnil rfl]
      exact ⟨rfl, rfl⟩
    | cons g gap =>
      have hg : ¬ (!Text.isBlank g) = true := by simp [hgap g List.mem_cons_self]
      exact ⟨List.takeWhile_cons_of_neg hg, List.dropWhile_cons_of_neg hg⟩
  have hbehind : behindWord (word ++ (gap ++ text)) = gap ++ text := by
    rw [behindWord, List.dropWhile_append_of_pos hnot, hend.2]
  refine ⟨?_, hbehind, ?_, ?_⟩
  · rw [firstWord, List.takeWhile_append_of_pos hnot, hend.1, List.append_nil]
  · rw [gapBehind, hbehind, List.takeWhile_append_of_pos hgap, hplain.1, List.append_nil]
  · rw [nextWord, hbehind, List.dropWhile_append_of_pos hgap, hplain.2]

end SlashCommand
