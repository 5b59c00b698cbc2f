import SlashCommand.Text.Affix
import SlashCommand.Text.Lowercase

/-!
# The case of ASCII letters

Databases compare labels up to the case of the ASCII letters, and everything else up to case in
general.  The first is the finer of the two (`eqIgnoreCase_of_eqIgnoreAsciiCase`): a text and the
same text with its ASCII letters in lower case have one and the same lower case
(`lowercase_toLower`).  The final sigma is what has to be looked at, because its lower case depends
on the characters around it.  Of those only the class counts, and a letter of either case is in the
same classes (`startsCased_toLower`).
-/

namespace SlashCommand.Text

/-- A character is its own lower case or one of the capital letters of ASCII. -/
theorem toLower_cases (c : Char) :
    c.toLower = c ∨ ∃ n < 26, c.toNat = 65 + n ∧ c.toLower.toNat = 97 + n := by
  by_cases hupper : c.val ≥ 'A'.val ∧ c.val ≤ 'Z'.val
  · have hlow : 'A'.toNat ≤ c.toNat := hupper.1
    have hhigh : c.toNat ≤ 'Z'.toNat := hupper.2
    have hbounds : 'A'.toNat = 65 ∧ 'Z'.toNat = 90 := ⟨rfl, rfl⟩
    have hlower : c.toLower.toNat = (c.val + ('a'.val - 'A'.val)).toNat :=
      congrArg Char.toNat (dif_pos hupper)
    have hdistance : ('a'.val - 'A'.val).toNat = 32 := rfl
    have hval : c.val.toNat = c.toNat := rfl
    rw [UInt32.toNat_add, hdistance, hval] at hlower
    exact .inr ⟨c.toNat - 65, by omega, by omega, by omega⟩
  · exact .inl (dif_neg hupper)

/-- What a property of code points says of the capital letters of ASCII and of the small ones, it
says of a character and its lower case. -/
theorem map_toLower {α : Type} {f : Nat → α} (h : ∀ n < 26, f (97 + n) = f (65 + n)) (c : Char) :
    f c.toLower.toNat = f c.toNat := by
  rcases toLower_cases c with hc | ⟨n, hn, hupper, hlower⟩
  · rw [hc]
  · rw [hupper, hlower]
    exact h n hn

theorem lowerChar_toLower (c : Char) : lowerChar c.toLower = lowerChar c := by
  have hall : ∀ n < 26, lowerChar (Char.ofNat (97 + n)) = lowerChar (Char.ofNat (65 + n)) := by
    decide
  have hc := map_toLower (f := fun n => lowerChar (Char.ofNat n)) hall c
  rwa [Char.ofNat_toNat, Char.ofNat_toNat] at hc

/-- A character outside ASCII is not the lower case of another one. -/
theorem toLower_eq_iff {c d : Char} (hd : 128 ≤ d.toNat) : c.toLower = d ↔ c = d := by
  rcases toLower_cases c with hc | ⟨n, hn, hupper, hlower⟩
  · rw [hc]
  · refine iff_of_false ?_ ?_
    · rintro rfl
      omega
    · rintro rfl
      omega

theorem inRanges_casedRanges_toLower (c : Char) :
    inRanges casedRanges c.toLower.toNat = inRanges casedRanges c.toNat :=
  map_toLower (f := inRanges casedRanges) (by decide +kernel) c

/-- No ASCII letter is case-ignorable. -/
theorem inRanges_caseIgnorableRanges_toLower (c : Char) :
    inRanges caseIgnorableRanges c.toLower.toNat = inRanges caseIgnorableRanges c.toNat := by
  have hapart : ∀ range ∈ caseIgnorableRanges,
      (range.2 < 65 ∨ 90 < range.1) ∧ (range.2 < 97 ∨ 122 < range.1) := by decide +kernel
  have hnone : ∀ n < 26, inRanges caseIgnorableRanges (97 + n) = false ∧
      inRanges caseIgnorableRanges (65 + n) = false := by
    intro n hn
    simp only [inRanges, List.any_eq_false, Bool.and_eq_true, decide_eq_true_eq]
    constructor
    · intro range hrange
      have := hapart range hrange
      omega
    · intro range hrange
      have := hapart range hrange
      omega
  refine map_toLower (f := inRanges caseIgnorableRanges) (fun n hn => ?_) c
  rw [(hnone n hn).1, (hnone n hn).2]

theorem startsCased_toLower (cs : List Char) :
    startsCased (cs.map Char.toLower) = startsCased cs := by
  induction cs with
  | nil => rfl
  | cons c cs ih =>
    have hignorable := inRanges_caseIgnorableRanges_toLower c
    have hcased := inRanges_casedRanges_toLower c
    unfold startsCased at ih ⊢
    by_cases hc : inRanges caseIgnorableRanges c.toNat = true
    · simpa only [List.map_cons, List.dropWhile_cons, hignorable, hc, if_true] using ih
    · simpa only [List.map_cons, List.dropWhile_cons, hignorable, hc, Bool.false_eq_true,
        if_false] using hcased

theorem lowerSigma_toLower (before after : List Char) :
    lowerSigma (before.map Char.toLower) (after.map Char.toLower) = lowerSigma before after := by
  rw [lowerSigma, lowerSigma, startsCased_toLower, startsCased_toLower]

theorem lowerAfter_toLower (before text : List Char) :
    lowerAfter (before.map Char.toLower) (text.map Char.toLower) = lowerAfter before text := by
  induction text generalizing before with
  | nil => rfl
  | cons c text ih =>
    have hrest := ih (c :: before)
    rw [List.map_cons] at hrest
    have hsigma : c.toLower = 'Σ' ↔ c = 'Σ' := toLower_eq_iff (by decide)
    have hdotted : c.toLower = 'İ' ↔ c = 'İ' := toLower_eq_iff (by decide)
    simp only [List.map_cons, lowerAfter, hrest, lowerSigma_toLower, lowerChar_toLower, hsigma,
      hdotted]

/-- With its ASCII letters in lower case a text has the same lower case. -/
theorem lowercase_toLower (s : String) :
    lowercase (String.ofList (s.toList.map Char.toLower)) = lowercase s := by
  rw [lowercase, String.toList_ofList]
  exact congrArg String.ofList (lowerAfter_toLower [] s.toList)

/-- Texts that differ by the case of ASCII letters only differ by case only. -/
theorem eqIgnoreCase_of_eqIgnoreAsciiCase {s t : String} (h : eqIgnoreAsciiCase s t = true) :
    eqIgnoreCase s t = true := by
  have htext : s.toList.map Char.toLower = t.toList.map Char.toLower := by
    simpa [eqIgnoreAsciiCase] using h
  rw [eqIgnoreCase, beq_iff_eq, ← lowercase_toLower s, htext, lowercase_toLower]

end SlashCommand.Text
