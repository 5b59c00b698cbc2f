import SlashCommand.Proofs.Binding.Checks
import Mathlib.Data.List.Lex

/-!
# What validation decides

Validation goes through a tree from the top and returns a list of defects.  The list is empty exactly
if the tree is well formed at every level (`Binding.WellFormed`), and otherwise it has a single
defect, the first in pre-order (`Binding.FirstDefect`): this is `Binding.validation_decides`.

A binding is found by its address, the list of places to take on the way down.  The addresses of a
tree in their lexicographic order are its bindings in pre-order: a binding comes before those below
it, because its address is the beginning of theirs, and everything below it comes before its next
sibling.  So the first defect is the one at the least address.
-/

namespace SlashCommand

namespace Binding

variable {path : List String} {before bindings level : List Binding} {b : Binding} {i : Nat}
  {address : List Nat} {d : Defect}

/-- The label of the binding is one word, which is none of the labels before it. -/
structure Labelled (before : List Binding) (b : Binding) : Prop where
  label_ne : b.label ≠ ""
  word : IsWord b.label.toList
  apart : ∀ a ∈ before, Text.lowercase a.label ≠ Text.lowercase b.label

/-- What is wrong with a binding behind siblings below a path.  Its label is looked at first, and
its form only if there is nothing wrong with the label. -/
inductive Defective (path : List String) (before : List Binding) (b : Binding) : Defect → Prop
  | unlabelled (hlabel : IsGap b.label.toList) :
      Defective path before b (.emptyBindingLabel (displayPath path))
  | manyWords (hvisible : ¬ IsGap b.label.toList) (hwords : ¬ IsWord b.label.toList) :
      Defective path before b (.whitespaceInLabel b.label)
  | labelTaken (hne : b.label ≠ "") (hword : IsWord b.label.toList)
      (htaken : ∃ a ∈ before, Text.lowercase a.label = Text.lowercase b.label) :
      Defective path before b (.duplicateBinding (displayPath (path ++ [b.label])))
  | malformed {form : Form} {d : Defect} (hlabelled : b.Labelled before)
      (hform : b.form = some form) (hfirst : form.FirstDefect d) : Defective path before b d

/-- The binding at an address has the defect, in a tree that stands below a path. -/
inductive DefectAt : List String → List Binding → List Nat → Defect → Prop
  | here {path : List String} {bindings : List Binding} {i : Nat} {b : Binding} {d : Defect}
      (hb : bindings[i]? = some b) (hdefective : b.Defective path (bindings.take i) d) :
      DefectAt path bindings [i] d
  | deeper {path : List String} {bindings : List Binding} {i : Nat} {b : Binding}
      {address : List Nat} {d : Defect} (hb : bindings[i]? = some b)
      (hat : DefectAt (path ++ [b.label]) b.bindings address d) :
      DefectAt path bindings (i :: address) d

/-- The defect is that of the first binding of a tree that has one, in pre-order. -/
def FirstDefect (path : List String) (bindings : List Binding) (d : Defect) : Prop :=
  IsFirst (List.Lex (· < ·)) (DefectAt path bindings) d

/-- A level of a tree: the top level, or the subcommands of a binding that stands on a level. -/
inductive IsLevel (bindings : List Binding) : List Binding → Prop
  | top : IsLevel bindings bindings
  | deeper {level : List Binding} {b : Binding} (hlevel : IsLevel bindings level) (hb : b ∈ level) :
      IsLevel bindings b.bindings

/-- What a level of a tree has to be like. -/
structure WellFormedLevel (level : List Binding) : Prop where
  labels_ne : ∀ b ∈ level, b.label ≠ ""
  labels_word : ∀ b ∈ level, IsWord b.label.toList
  labels_nodup : (level.map fun b => Text.lowercase b.label).Nodup
  forms : ∀ b ∈ level, ∀ form, b.form = some form → form.WellFormed

/-- What a tree has to be like, at every level. -/
def WellFormed (bindings : List Binding) : Prop :=
  ∀ level, IsLevel bindings level → WellFormedLevel level

/-! ## One binding -/

/-- The defect of a binding behind siblings below a path, whatever is below the binding itself. -/
def ownDefect? (path : List String) (before : List Binding) (b : Binding) : Option Defect :=
  (labelDefect? path (before.map (·.label)) b.label).or (b.form.bind Form.defect?)

/-- The first defect of a binding and of those below it. -/
def branchDefect? (path : List String) (before : List Binding) (b : Binding) : Option Defect :=
  (ownDefect? path before b).or (defectBelow? (path ++ [b.label]) [] b.bindings)

theorem defectBelow?_eq_firstFailure? (path : List String) (before bindings : List Binding) :
    defectBelow? path (before.map (·.label)) bindings =
      firstFailure? (branchDefect? path) before bindings := by
  induction bindings generalizing before with
  | nil => exact defectBelow?_nil
  | cons b bindings ih =>
    have hrest := ih (before ++ [b])
    rw [List.map_append, List.map_singleton] at hrest
    obtain ⟨_, _, _, _, _, _, _, _, _⟩ := b
    rw [defectBelow?, hrest, firstFailure?, branchDefect?, ownDefect?, Option.or_assoc,
      Option.or_assoc]

/-- A label that is one word is compared with the labels before it. -/
theorem labelDefect?_of_isWord {labels : List String} {label : String} (hne : label ≠ "")
    (hword : IsWord label.toList) :
    labelDefect? path labels label =
      if labels.any fun l => Text.eqIgnoreCase l label then
        some (.duplicateBinding (displayPath (path ++ [label])))
      else none := by
  have hvisible : ¬ (Text.trim label == "") = true := by
    rw [beq_iff_eq, trim_eq_empty_iff]
    intro hgap
    have hnil : label.toList = [] := eq_nil_of_startsBlank
      (fun c hc => hgap c (List.mem_of_mem_head? hc)) fun c hc => hword c (List.mem_of_mem_head? hc)
    exact hne (String.toList_eq_nil_iff.mp hnil)
  have hblank : ¬ Text.hasBlank label = true :=
    Bool.not_eq_true _ ▸ hasBlank_eq_false_iff.mpr hword
  rw [labelDefect?, if_neg hvisible, if_neg hblank]

theorem ownDefect?_of_labelled (h : b.Labelled before) :
    ownDefect? path before b = b.form.bind Form.defect? := by
  have hnew : ¬ ((before.map (·.label)).any fun l => Text.eqIgnoreCase l b.label) = true := by
    simpa [Text.eqIgnoreCase] using h.apart
  rw [ownDefect?, labelDefect?_of_isWord h.label_ne h.word, if_neg hnew, Option.none_or]

theorem ownDefect?_of_defective (h : b.Defective path before d) :
    ownDefect? path before b = some d := by
  cases h with
  | unlabelled hlabel =>
    rw [ownDefect?, labelDefect?, if_pos (beq_iff_eq.mpr (trim_eq_empty_iff.mpr hlabel)),
      Option.some_or]
  | manyWords hvisible hwords =>
    rw [← trim_eq_empty_iff, ← beq_iff_eq] at hvisible
    rw [← hasBlank_eq_false_iff, Bool.not_eq_false] at hwords
    rw [ownDefect?, labelDefect?, if_neg hvisible, if_pos hwords, Option.some_or]
  | labelTaken hne hword htaken =>
    rw [ownDefect?, labelDefect?_of_isWord hne hword,
      if_pos (by simpa [Text.eqIgnoreCase] using htaken), Option.some_or]
  | malformed hlabelled hform hfirst =>
    rw [ownDefect?_of_labelled hlabelled, hform, Option.bind_some, Form.defect?_eq_some_iff]
    exact hfirst

/-- The label of a binding and its form are as they have to be. -/
structure Sound (before : List Binding) (b : Binding) : Prop where
  labelled : b.Labelled before
  form : ∀ form, b.form = some form → form.WellFormed

/-- A binding is sound or has a defect. -/
theorem sound_or_defective (path : List String) (before : List Binding) (b : Binding) :
    b.Sound before ∨ ∃ d, b.Defective path before d := by
  by_cases hvisible : IsGap b.label.toList
  · exact .inr ⟨_, .unlabelled hvisible⟩
  by_cases hword : IsWord b.label.toList
  swap
  · exact .inr ⟨_, .manyWords hvisible hword⟩
  have hne : b.label ≠ "" := fun hempty => hvisible (by rw [hempty]; nofun)
  by_cases htaken : ∃ a ∈ before, Text.lowercase a.label = Text.lowercase b.label
  · exact .inr ⟨_, .labelTaken hne hword htaken⟩
  have hlabelled : b.Labelled before :=
    ⟨hne, hword, fun a ha hsame => htaken ⟨a, ha, hsame⟩⟩
  cases hform : b.form with
  | none => exact .inl ⟨hlabelled, fun _ h => nomatch hform.symm.trans h⟩
  | some form =>
    cases hdefect : form.defect? with
    | some d => exact .inr ⟨d, .malformed hlabelled hform (Form.defect?_eq_some_iff.mp hdefect)⟩
    | none =>
      refine .inl ⟨hlabelled, fun form' hform' => ?_⟩
      cases hform.symm.trans hform'
      exact Form.defect?_eq_none_iff.mp hdefect

theorem ownDefect?_of_sound (h : b.Sound before) : ownDefect? path before b = none := by
  rw [ownDefect?_of_labelled h.labelled, Option.bind_eq_none_iff]
  exact fun form hform => Form.defect?_eq_none_iff.mpr (h.form form hform)

theorem ownDefect?_eq_some_iff : ownDefect? path before b = some d ↔ b.Defective path before d := by
  refine ⟨fun h => ?_, ownDefect?_of_defective⟩
  rcases sound_or_defective path before b with hsound | ⟨d', hdefective⟩
  · rw [ownDefect?_of_sound hsound] at h
    cases h
  · rw [ownDefect?_of_defective hdefective] at h
    exact Option.some.inj h ▸ hdefective

theorem ownDefect?_eq_none_iff : ownDefect? path before b = none ↔ b.Sound before := by
  refine ⟨fun h => ?_, ownDefect?_of_sound⟩
  rcases sound_or_defective path before b with hsound | ⟨d', hdefective⟩
  · exact hsound
  · rw [ownDefect?_of_defective hdefective] at h
    cases h

/-- Siblings have no defect if each is sound behind those before it and has none below. -/
theorem defectBelow?_eq_none_iff_sound : defectBelow? path [] bindings = none ↔
    ∀ i (b : Binding), bindings[i]? = some b → b.Sound (bindings.take i) ∧
      defectBelow? (path ++ [b.label]) [] b.bindings = none := by
  have hlevel := defectBelow?_eq_firstFailure? path [] bindings
  rw [List.map_nil] at hlevel
  rw [hlevel, firstFailure?_eq_none_iff]
  simp only [List.nil_append, branchDefect?, Option.or_eq_none_iff, ownDefect?_eq_none_iff]

/-! ## One level -/

theorem wellFormedLevel_iff_sound : WellFormedLevel level ↔
    ∀ i (b : Binding), level[i]? = some b → b.Sound (level.take i) := by
  constructor
  · intro h i b hb
    have hmem : b ∈ level := List.mem_of_getElem? hb
    have hlabels := pairwise_iff_take.mp (List.pairwise_map.mp h.labels_nodup) i b hb
    exact ⟨⟨h.labels_ne b hmem, h.labels_word b hmem, hlabels⟩, h.forms b hmem⟩
  · intro h
    have hall {p : Binding → Prop} (hp : ∀ i b, level[i]? = some b → p b) :
        ∀ b ∈ level, p b := fun b hb => by
      obtain ⟨i, hi⟩ := List.mem_iff_getElem?.mp hb
      exact hp i b hi
    refine ⟨hall fun i b hb => (h i b hb).labelled.label_ne,
      hall fun i b hb => (h i b hb).labelled.word, ?_, hall fun i b hb => (h i b hb).form⟩
    exact List.pairwise_map.mpr (pairwise_iff_take.mpr fun i b hb a ha =>
      (h i b hb).labelled.apart a ha)

/-! ## The whole tree -/

theorem sizeOf_bindings_lt (hb : b ∈ bindings) : sizeOf b.bindings < sizeOf bindings := by
  have hself : sizeOf b.bindings < sizeOf b := by
    cases b
    simp only [Binding.mk.sizeOf_spec]
    omega
  exact Nat.lt_trans hself (List.sizeOf_lt_of_mem hb)

/-- What holds of a level if it holds of the levels right below it holds of every level. -/
theorem level_induction {motive : List Binding → Prop}
    (step : ∀ level, (∀ b ∈ level, motive b.bindings) → motive level) (bindings : List Binding) :
    motive bindings :=
  step bindings fun b _ => level_induction step b.bindings
termination_by sizeOf bindings
decreasing_by exact sizeOf_bindings_lt ‹_›

/-- The levels of a subtree are levels of the tree. -/
theorem IsLevel.of_below (hb : b ∈ bindings) (h : IsLevel b.bindings level) :
    IsLevel bindings level := by
  induction h with
  | top => exact .deeper .top hb
  | deeper _ hmem ih => exact .deeper ih hmem

theorem defectBelow?_of_wellFormed (h : WellFormed bindings) :
    defectBelow? path [] bindings = none := by
  induction bindings using level_induction generalizing path with
  | step bindings ih =>
    refine defectBelow?_eq_none_iff_sound.mpr fun i b hb => ?_
    have hmem : b ∈ bindings := List.mem_of_getElem? hb
    refine ⟨wellFormedLevel_iff_sound.mp (h bindings .top) i b hb, ih b hmem ?_⟩
    exact fun level hlevel => h level (hlevel.of_below hmem)

/-- Each level of a tree without a defect has none below some path. -/
theorem IsLevel.exists_path (h : IsLevel bindings level)
    (hvalid : defectBelow? path [] bindings = none) :
    ∃ path', defectBelow? path' [] level = none := by
  induction h with
  | top => exact ⟨path, hvalid⟩
  | deeper _ hb ih =>
    obtain ⟨path', hnone⟩ := ih
    obtain ⟨i, hi⟩ := List.mem_iff_getElem?.mp hb
    exact ⟨_, (defectBelow?_eq_none_iff_sound.mp hnone i _ hi).2⟩

theorem treeDefect?_eq_none_iff_wellFormed : treeDefect? bindings = none ↔ WellFormed bindings := by
  refine ⟨fun h level hlevel => ?_, defectBelow?_of_wellFormed⟩
  obtain ⟨path, hnone⟩ := hlevel.exists_path h
  exact wellFormedLevel_iff_sound.mpr fun i b hb =>
    (defectBelow?_eq_none_iff_sound.mp hnone i b hb).1

/-- A tree without a defect has one at no address. -/
theorem DefectAt.exists_defect (h : DefectAt path bindings address d) :
    ∃ d', defectBelow? path [] bindings = some d' := by
  rw [← Option.isSome_iff_exists, ← Option.ne_none_iff_isSome]
  induction h with
  | here hb hdefective =>
    intro hnone
    have hsound := (defectBelow?_eq_none_iff_sound.mp hnone _ _ hb).1
    rw [← ownDefect?_eq_some_iff, ownDefect?_of_sound hsound] at hdefective
    cases hdefective
  | deeper hb _ ih => exact fun hnone => ih (defectBelow?_eq_none_iff_sound.mp hnone _ _ hb).2

/-- An address has one defect at most. -/
theorem DefectAt.unique {d' : Defect} (h : DefectAt path bindings address d)
    (h' : DefectAt path bindings address d') : d = d' := by
  induction h with
  | here hb hdefective =>
    cases h' with
    | here hb' hdefective' =>
      cases hb.symm.trans hb'
      rw [← ownDefect?_eq_some_iff] at hdefective hdefective'
      exact Option.some.inj (hdefective.symm.trans hdefective')
    | deeper _ hat => cases hat
  | deeper hb hat ih =>
    cases h' with
    | here => cases hat
    | deeper hb' hat' =>
      cases hb.symm.trans hb'
      exact ih hat'

/-- If a binding has no defect and there is none below it, there is none at an address that begins
with its place. -/
theorem not_defectAt_of_branchDefect?
    (hnone : ∀ c, bindings[i]? = some c → branchDefect? path (bindings.take i) c = none) :
    ¬ DefectAt path bindings (i :: address) d := by
  intro hat
  cases hat with
  | here hc hdefective =>
    have hown := (Option.or_eq_none_iff.mp (hnone _ hc)).1
    rw [ownDefect?_of_defective hdefective] at hown
    cases hown
  | deeper hc hat =>
    have hbelow := (Option.or_eq_none_iff.mp (hnone _ hc)).2
    obtain ⟨d', hsome⟩ := hat.exists_defect
    rw [hsome] at hbelow
    cases hbelow

/-- The defect that is reported is the first in pre-order. -/
theorem firstDefect_of_defectBelow? (h : defectBelow? path [] bindings = some d) :
    FirstDefect path bindings d := by
  induction bindings using level_induction generalizing path with
  | step bindings ih =>
    have hlevel := defectBelow?_eq_firstFailure? path [] bindings
    rw [List.map_nil] at hlevel
    rw [hlevel] at h
    obtain ⟨i, b, hb, hfails, hpass⟩ := exists_of_firstFailure? h
    simp only [List.nil_append] at hfails hpass
    have hbefore {j : Nat} {address : List Nat} {d' : Defect} (hj : j < i) :
        ¬ DefectAt path bindings (j :: address) d' :=
      not_defectAt_of_branchDefect? (hpass j hj)
    rcases Option.or_eq_some_iff.mp hfails with hown | ⟨hown, hbelow⟩
    · refine ⟨[i], .here hb (ownDefect?_eq_some_iff.mp hown), fun address' hlt d' hat => ?_⟩
      cases hlt with
      | nil => cases hat
      | rel hj => exact hbefore hj hat
      | cons hnil => cases hnil
    · obtain ⟨address, hat, hfirst⟩ := ih b (List.mem_of_getElem? hb) hbelow
      refine ⟨i :: address, .deeper hb hat, fun address' hlt d' hat' => ?_⟩
      cases hlt with
      | nil => cases hat'
      | rel hj => exact hbefore hj hat'
      | cons hlt' =>
        cases hat' with
        | here hb' hdefective =>
          cases hb.symm.trans hb'
          rw [ownDefect?_of_defective hdefective] at hown
          cases hown
        | deeper hb' hat' =>
          cases hb.symm.trans hb'
          exact hfirst _ hlt' d' hat'

theorem treeDefect?_eq_some_iff : treeDefect? bindings = some d ↔ FirstDefect [] bindings d := by
  refine ⟨firstDefect_of_defectBelow?, fun h => ?_⟩
  obtain ⟨address, hat, -⟩ := id h
  obtain ⟨d', hfound⟩ := hat.exists_defect
  rw [treeDefect?, hfound]
  exact congrArg some (IsFirst.unique (firstDefect_of_defectBelow? hfound) h DefectAt.unique)

/-- A list that has what an option has is empty, or it has a single member. -/
theorem toList_cases {α : Type} (a? : Option α) :
    (a?.toList = [] ↔ a? = none) ∧ (a? ≠ none → ∃ a, a?.toList = [a]) ∧
      ∀ a, a?.toList = [a] ↔ a? = some a := by
  cases a? with
  | none => exact ⟨iff_of_true rfl rfl, fun h => absurd rfl h, fun _ => iff_of_false nofun nofun⟩
  | some b => exact ⟨iff_of_false nofun nofun, fun _ => ⟨b, rfl⟩, fun _ => by simp⟩

/-- **Validation decides.**  No defects are returned for a tree exactly if it is well formed at every
level, and otherwise exactly one is, the first in pre-order.  No defects are returned for a form
exactly if it is well formed, and otherwise exactly one is, that of the first field that has one. -/
theorem validation_decides (bindings : List Binding) (form : Form) :
    ((treeDefects bindings = [] ↔ WellFormed bindings) ∧
      (¬ WellFormed bindings → ∃ d, treeDefects bindings = [d]) ∧
      ∀ d, treeDefects bindings = [d] ↔ FirstDefect [] bindings d) ∧
    ((form.defects = [] ↔ form.WellFormed) ∧
      (¬ form.WellFormed → ∃ d, form.defects = [d]) ∧
      ∀ d, form.defects = [d] ↔ form.FirstDefect d) := by
  rw [treeDefects_eq_toList, form.defects_eq_toList, ← treeDefect?_eq_none_iff_wellFormed,
    ← Form.defect?_eq_none_iff]
  simp only [← treeDefect?_eq_some_iff, ← Form.defect?_eq_some_iff]
  exact ⟨toList_cases _, toList_cases _⟩

end Binding

end SlashCommand
