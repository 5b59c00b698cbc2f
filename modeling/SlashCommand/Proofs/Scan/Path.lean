import SlashCommand.Proofs.Scan.DeepestMatch
import SlashCommand.Proofs.Scan.Grammar

/-!
# Commands that spell a path

A command that spells the labels of a path through the tree, down to a leaf, is matched to that
leaf, and the rest of its text is left to the parameters.  The labels may be spelled in any case and
stand apart by any blanks (`Spelled`).
-/

namespace SlashCommand

/-- A text spells words with blanks behind them, and leaves `rest`. -/
inductive Spelled (rest : List Char) : List String → List Char → Prop
  | nil : Spelled rest [] rest
  | cons {word gap text : List Char} {words : List String} :
      IsWord word → IsGap gap → (gap = [] → text = []) →
      StartsPlain text → (text = [] → words = []) → Spelled rest words text →
      Spelled rest (String.ofList word :: words) (word ++ (gap ++ text))

variable {rest text : List Char} {words : List String} {bindings path : List Binding}

/-- The tokens of a text that spells words are those words, and behind them the tokens of what is
left. -/
theorem tokensFrom_of_spelled {start : Nat} (h : Spelled rest words text) (hne : words ≠ []) :
    ∃ w tokens, text = w ++ rest ∧ tokens.map CommandToken.text = words ∧
      tokensFrom start text =
        tokens ++ if rest = [] then [] else tokensFrom (start + w.length) rest := by
  induction h generalizing start with
  | nil => exact absurd rfl hne
  | @cons word gap text words hword hgap hnil hplain hend h ih =>
    let token : CommandToken := ⟨start, String.ofList word, !(gap ++ text).isEmpty⟩
    have hfirst : tokensFrom start (word ++ (gap ++ text)) =
        token :: if text = [] then [] else tokensFrom (start + word.length + gap.length) text :=
      tokensFrom_append hword hgap hnil hplain
    by_cases hlast : words = []
    · subst hlast
      cases h with
      | nil =>
        refine ⟨word ++ gap, [token], by simp, rfl, hfirst.trans ?_⟩
        rw [List.length_append, Nat.add_assoc]
        rfl
    · have htext : text ≠ [] := fun hempty => hlast (hend hempty)
      obtain ⟨w, tokens, hw, htokens, hmore⟩ := @ih (start + word.length + gap.length) hlast
      rw [if_neg htext, hmore] at hfirst
      refine ⟨word ++ (gap ++ w), token :: tokens, by rw [hw]; simp, ?_, hfirst.trans ?_⟩
      · rw [List.map_cons, htokens]
      · simp only [List.length_append, Nat.add_assoc, List.cons_append]

/-- A chain that ends in a leaf is the deepest one along any further words. -/
theorem deepestChain_of_isChain {more : List String} (h : IsChain bindings words path)
    (hlength : path.length = words.length)
    (hleaf : (path.getLast?.map (·.bindings)).getD bindings = []) :
    deepestChain bindings (words ++ more) = path := by
  induction h with
  | @nil bindings words =>
    obtain rfl : words = [] := List.eq_nil_of_length_eq_zero hlength.symm
    obtain rfl : bindings = [] := hleaf
    cases more with
    | nil => rfl
    | cons word more => exact deepestChain_cons_of_none rfl
  | @cons bindings path b word words hb _ ih =>
    have hbelow : (path.getLast?.map (·.bindings)).getD b.bindings = [] := by
      rw [List.getLast?_cons] at hleaf
      cases hlast : path.getLast? with
      | none =>
        rw [hlast] at hleaf
        exact hleaf
      | some c =>
        rw [hlast] at hleaf
        exact hleaf
    rw [List.cons_append, deepestChain_cons_of_some hb, ih (by simpa using hlength) hbelow]

namespace Scan

/-- A command that is executed and spells a path down to a leaf is matched to that leaf, and what is
left behind the path are its parameters. -/
theorem matchBinding_of_spelled {command : String} {leaf : Binding}
    (h : command.toList = '/' :: text) (hspelled : Spelled rest words text)
    (hchain : IsChain bindings words path) (hlength : path.length = words.length)
    (hlast : path.getLast? = some leaf) (hleaf : leaf.bindings = []) :
    let m := (ofText command).matchBinding bindings .execute
    m.isFailed = false ∧ m.binding = some leaf ∧ command.toList.drop m.tokenStart = rest := by
  have hpath : path ≠ [] := by
    rintro rfl
    cases hlast
  have hwords : words ≠ [] := by
    rintro rfl
    exact hpath (List.eq_nil_of_length_eq_zero hlength)
  have hbindings : bindings ≠ [] := by
    rintro rfl
    cases hchain with
    | nil => exact hpath rfl
    | cons hb _ => cases hb
  obtain ⟨w, tokens, htext, htokens, hall⟩ :
      ∃ w tokens, text = w ++ rest ∧ tokens.map CommandToken.text = words ∧
        tokensFrom 1 text = tokens ++ if rest = [] then [] else tokensFrom (1 + w.length) rest :=
    tokensFrom_of_spelled hspelled hwords
  have hdeepest : path = deepestChain bindings (lookedUp .execute (tokensFrom 1 text)) := by
    rw [hall]
    show path = deepestChain bindings ((tokens ++ _).map CommandToken.text)
    rw [List.map_append, htokens, deepestChain_of_isChain hchain hlength]
    rw [hlast]
    exact hleaf
  obtain ⟨state, cursor, token, hstate, hm⟩ := matchBinding_of_chain h hbindings hdeepest hlast
  intro m
  have hbinding : m.binding = some leaf := by
    show ((ofText command).matchBinding bindings .execute).binding = some leaf
    rw [hm]
    show (path.foldl enter (behindSlash command bindings)).binding = some leaf
    rw [binding_foldl_enter, hlast]
    rfl
  have hstart : m.tokenStart = parametersStart (tokensFrom 1 text) path command.length := by
    show ((ofText command).matchBinding bindings .execute).tokenStart = _
    rw [hm]
    rfl
  refine ⟨?_, hbinding, ?_⟩
  · show ((ofText command).matchBinding bindings .execute).isFailed = false
    rw [hm]
    exact hstate
  · have hindex : path.length = tokens.length := by
      rw [hlength, ← htokens, List.length_map]
    rw [hstart, hall, parametersStart, hindex, List.getElem?_append_right (Nat.le_refl _),
      Nat.sub_self]
    by_cases hrest : rest = []
    · rw [if_pos hrest, hrest]
      exact List.drop_eq_nil_of_le (Nat.le_refl command.toList.length)
    · rw [if_neg hrest, tokensFrom]
      show command.toList.drop (1 + w.length) = rest
      rw [h, htext, Nat.add_comm, List.drop_succ_cons, List.drop_left]

end Scan

end SlashCommand
