import SlashCommand.Datum.Number
import SlashCommand.Proofs.Datum.Nesting

/-!
# Numbers as numerals

The text of a whole number of sixty-four bits is a numeral with this number as its value
(`Numeral.value?_ofChars?_toString`), and a numeral has no other whole numbers for a value
(`Numeral.inWord_of_value?`).  The text of any number has few kinds of characters
(`Number.isChar_text`).
-/

namespace SlashCommand

open Datum (InWord)

namespace Numeral

variable {n : Nat} {cs : List Char}

/-- The digits that a list of digit characters stands for. -/
def digitsOf (cs : List Char) : List Nat := cs.map fun c => c.toNat - '0'.toNat

theorem spanDigits_eq (h : ∀ c ∈ cs, c.isDigit = true) : spanDigits cs = (digitsOf cs, []) := by
  induction cs with
  | nil => rfl
  | cons c cs ih =>
    obtain ⟨hc, hcs⟩ := List.forall_mem_cons.mp h
    rw [spanDigits, if_pos hc, ih hcs]
    rfl

theorem digitsValue_digitsOf (cs : List Char) :
    digitsValue (digitsOf cs) = Nat.ofDigitChars 10 cs 0 := by
  rw [digitsValue, digitsOf, List.foldl_map, Nat.ofDigitChars_eq_foldl]
  simp only [Nat.mul_comm]

/-- The digits of a number without leading zeros begin with a zero for zero alone. -/
theorem head?_toDigits (h : 0 < n) :
    ∃ c rest, Nat.toDigits 10 n = c :: rest ∧ c.toNat - '0'.toNat ≠ 0 := by
  induction n using Nat.strongRecOn with
  | ind n ih =>
    rcases Nat.lt_or_ge n 10 with hn | hn
    · refine ⟨n.digitChar, [], Nat.toDigits_of_lt_base hn, ?_⟩
      have hdigit : ∀ n < 10, 0 < n → n.digitChar.toNat - '0'.toNat ≠ 0 := by decide
      exact hdigit n hn h
    · obtain ⟨c, rest, hdigits, hc⟩ := ih (n / 10) (by omega) (by omega)
      refine ⟨c, rest ++ [(n % 10).digitChar], ?_, hc⟩
      rw [Nat.toDigits_of_base_le (by decide) hn, hdigits, List.cons_append]

/-- Digits without leading zeros are a numeral, also with a minus sign. -/
theorem ofChars?_toDigits (n : Nat) :
    ofChars? (Nat.toDigits 10 n) = some ⟨false, digitsOf (Nat.toDigits 10 n), none, none⟩ ∧
      ofChars? ('-' :: Nat.toDigits 10 n) =
        some ⟨true, digitsOf (Nat.toDigits 10 n), none, none⟩ := by
  have hspan : spanDigits (Nat.toDigits 10 n) = (digitsOf (Nat.toDigits 10 n), []) :=
    spanDigits_eq fun c hc => Nat.isDigit_of_mem_toDigits (by decide) (by decide) hc
  have hdigit : ∀ c ∈ Nat.toDigits 10 n, c.isDigit = true :=
    fun c hc => Nat.isDigit_of_mem_toDigits (by decide) (by decide) hc
  rcases Nat.eq_zero_or_pos n with rfl | hn
  · rw [Nat.toDigits_zero]
    exact ⟨rfl, rfl⟩
  · obtain ⟨c, rest, hdigits, hc⟩ := head?_toDigits hn
    rw [hdigits] at hspan hdigit ⊢
    have hminus : c ≠ '-' := by
      rintro rfl
      exact absurd (hdigit '-' List.mem_cons_self) (by decide)
    obtain ⟨d, hd⟩ : ∃ d, c.toNat - '0'.toNat = d + 1 := Nat.exists_eq_succ_of_ne_zero hc
    have hcons : digitsOf (c :: rest) = (d + 1) :: digitsOf rest := by
      rw [← hd]
      rfl
    rw [hcons] at hspan ⊢
    constructor
    · unfold ofChars?
      simp [hminus, hspan, spanFraction?, spanExponent?]
    · unfold ofChars?
      simp [hspan, spanFraction?, spanExponent?]

theorem value?_of_inWord {n : Int} (h : InWord n) :
    value? ⟨decide (n < 0), digitsOf (Nat.toDigits 10 n.natAbs), none, none⟩ =
      some (.whole n) := by
  obtain ⟨hlow, hhigh⟩ := h
  have hvalue : digitsValue (digitsOf (Nat.toDigits 10 n.natAbs)) = n.natAbs := by
    rw [digitsValue_digitsOf, Nat.ofDigitChars_ten_toDigits]
  have hpow : Nat.pow 2 63 = 2 ^ 63 ∧ Nat.pow 2 64 = 2 ^ 64 := ⟨rfl, rfl⟩
  have hpowInt : Int.pow 2 63 = (2 ^ 63 : Nat) ∧ Int.pow 2 64 = (2 ^ 64 : Nat) := ⟨rfl, rfl⟩
  simp only [value?, hvalue, Option.isNone_none, and_self, if_true, hpow]
  by_cases hn : n < 0
  · rw [decide_eq_true hn, if_pos rfl, if_pos (by omega)]
    congr
    omega
  · rw [decide_eq_false hn, if_neg Bool.false_ne_true, if_pos (by omega)]
    congr
    omega

/-- The text of a whole number is a numeral, and sixty-four bits of it are its value. -/
theorem value?_ofChars?_toString {n : Int} (h : InWord n) :
    (ofChars? (toString n).toList).bind value? = some (.whole n) := by
  have hchars : ofChars? (toString n).toList =
      some ⟨decide (n < 0), digitsOf (Nat.toDigits 10 n.natAbs), none, none⟩ := by
    rw [Int.toString_eq_repr, Int.repr_eq_if]
    split
    · next hn =>
      have habs : n.toNat = n.natAbs := by omega
      rw [Nat.toList_repr, habs, decide_eq_false (by omega), (ofChars?_toDigits _).1]
    · next hn =>
      have habs : (-n).toNat = n.natAbs := by omega
      rw [String.toList_append, Nat.toList_repr, habs, decide_eq_true (by omega)]
      exact (ofChars?_toDigits _).2
  rw [hchars, Option.bind_some, value?_of_inWord h]

/-- The characters of a whole number are digits, and a sign. -/
theorem mem_toString {n : Int} {c : Char} (h : c ∈ (toString n).toList) :
    c.isDigit = true ∨ c = '-' := by
  rw [Int.toString_eq_repr, Int.repr_eq_if] at h
  split at h
  · rw [Nat.toList_repr] at h
    exact .inl (Nat.isDigit_of_mem_toDigits (by decide) (by decide) h)
  · rw [String.toList_append, Nat.toList_repr] at h
    rcases List.mem_append.mp h with h | h
    · exact .inr (List.mem_singleton.mp h)
    · exact .inl (Nat.isDigit_of_mem_toDigits (by decide) (by decide) h)

/-- Only a number of sixty-four bits is the value of a numeral without being floating-point. -/
theorem inWord_of_value? {numeral : Numeral} {n : Int} (h : numeral.value? = some (.whole n)) :
    InWord n := by
  have hpow : Nat.pow 2 63 = 2 ^ 63 ∧ Nat.pow 2 64 = 2 ^ 64 := ⟨rfl, rfl⟩
  have hpowInt : Int.pow 2 63 = (2 ^ 63 : Nat) ∧ Int.pow 2 64 = (2 ^ 64 : Nat) := ⟨rfl, rfl⟩
  simp only [value?, hpow] at h
  rw [InWord, hpowInt.1, hpowInt.2]
  split at h
  · split at h
    · split at h
      · next hbound =>
        cases h
        constructor <;> omega
      · simp at h
    · split at h
      · next hbound =>
        cases h
        constructor <;> omega
      · simp at h
  · simp at h

end Numeral

namespace Number

variable {rise : String}

/-- A character that the text of a number can have, when an exponent begins with `rise`. -/
def IsChar (rise : String) (c : Char) : Prop :=
  c.isDigit = true ∨ c = '-' ∨ c = '.' ∨ c = 'e' ∨ c ∈ rise.toList

theorem isChar_decimalText (d : Nat) (k : Int) :
    ∀ c ∈ (decimalText rise d k).toList, IsChar rise c := by
  have hdigits : ∀ c ∈ Nat.toDigits 10 d, IsChar rise c :=
    fun c hc => .inl (Nat.isDigit_of_mem_toDigits (by decide) (by decide) hc)
  have htake (n : Nat) : ∀ c ∈ (Nat.toDigits 10 d).take n, IsChar rise c :=
    fun c hc => hdigits c (List.mem_of_mem_take hc)
  have hdrop (n : Nat) : ∀ c ∈ (Nat.toDigits 10 d).drop n, IsChar rise c :=
    fun c hc => hdigits c (List.mem_of_mem_drop hc)
  have hzeros (n : Nat) : ∀ c ∈ List.replicate n '0', IsChar rise c :=
    fun c hc => .inl (List.eq_of_mem_replicate hc ▸ rfl)
  have hexponent (n : Int) : ∀ c ∈ (toString n).toList, IsChar rise c :=
    fun c hc => (Numeral.mem_toString hc).imp_right .inl
  have hzero : IsChar rise '0' := .inl rfl
  have hpoint : IsChar rise '.' := .inr (.inr (.inl rfl))
  have he : IsChar rise 'e' := .inr (.inr (.inr (.inl rfl)))
  have hrise : ∀ c ∈ rise.toList, IsChar rise c := fun c hc => .inr (.inr (.inr (.inr hc)))
  simp only [decimalText]
  split
  · simp only [String.toList_ofList, List.forall_mem_append, List.forall_mem_cons]
    exact ⟨⟨hdigits, hzeros _⟩, hpoint, hzero, List.forall_mem_nil _⟩
  split
  · simp only [String.toList_ofList, List.forall_mem_append, List.forall_mem_singleton]
    exact ⟨⟨htake _, hpoint⟩, hdrop _⟩
  split
  · simp only [String.toList_ofList, List.forall_mem_append, List.forall_mem_cons]
    exact ⟨⟨⟨hzero, hpoint, List.forall_mem_nil _⟩, hzeros _⟩, hdigits⟩
  · simp only [String.toList_append, String.toList_ofList, List.forall_mem_append]
    refine ⟨⟨?_, ?_⟩, hexponent _⟩
    · split
      · exact hdigits
      · simp only [List.forall_mem_append, List.forall_mem_singleton]
        exact ⟨⟨htake _, hpoint⟩, hdrop _⟩
    · split
      · exact hrise
      · exact List.forall_mem_singleton.mpr he

theorem isChar_text (v : Number) : ∀ c ∈ (v.text rise).toList, IsChar rise c := by
  cases v with
  | whole n => exact fun c hc => (Numeral.mem_toString hc).imp_right .inl
  | float bits =>
    have hsign (p : Prop) [Decidable p] : ∀ c ∈ (if p then "-" else "").toList, IsChar rise c := by
      split
      · exact List.forall_mem_singleton.mpr (.inr (.inl rfl))
      · exact List.forall_mem_nil _
    have hzero : ∀ c ∈ "0.0".toList, IsChar rise c :=
      List.forall_mem_cons.mpr ⟨.inl rfl, List.forall_mem_cons.mpr ⟨.inr (.inr (.inl rfl)),
        List.forall_mem_singleton.mpr (.inl rfl)⟩⟩
    simp only [text, floatText]
    split
    · rw [String.toList_append]
      exact List.forall_mem_append.mpr ⟨hsign _, hzero⟩
    · rw [String.toList_append]
      exact List.forall_mem_append.mpr ⟨hsign _, isChar_decimalText _ _⟩

end Number
end SlashCommand
