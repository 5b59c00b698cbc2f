import SlashCommand.Binding.Validation
import SlashCommand.Proofs.Text.Words
import Mathlib.Data.List.DropRight

/-!
# What is checked of a field

A field is checked against the fields before it.  `Field.Sound` says without the checks what it has
to be like, and `Field.Defective` what is wrong with it otherwise.  Which of the two holds is what
the checks find out (`Form.fieldDefect?_eq_none_iff`, `Form.fieldDefect?_eq_some_iff`).
-/

namespace SlashCommand

/-- Trimming leaves nothing of a text that is blank, and of no other. -/
theorem trim_eq_empty_iff {s : String} : Text.trim s = "" ↔ IsGap s.toList := by
  calc Text.trim s = ""
      ↔ ∀ c ∈ s.toList.dropWhile Text.isBlank, Text.isBlank c = true := by
        rw [← String.toList_eq_nil_iff, Text.trim, Text.trimEnd, String.toList_ofList,
          String.toList_ofList, List.reverse_eq_nil_iff, List.dropWhile_eq_nil_iff]
        simp only [List.mem_reverse]
    _ ↔ s.toList.dropWhile Text.isBlank = [] := by
        rw [← List.dropWhile_eq_nil_iff, List.dropWhile_idempotent]
    _ ↔ IsGap s.toList := List.dropWhile_eq_nil_iff

/-- Two fields have different names and different flags. -/
structure Field.Apart (g f : Field) : Prop where
  name : g.name ≠ f.name
  flagName : Text.eqIgnoreCase g.flagName f.flagName = false

namespace Field

variable {before : List Field} {f g : Field} {d : Defect}

/-- The field has a name that shows, and is apart from the fields before it. -/
structure Named (before : List Field) (f : Field) : Prop where
  visible : ¬ IsGap f.name.toList
  apart : ∀ g ∈ before, g.Apart f

/-- The position of the field is one that there is, and not that of a field before it unless it is
no position at all; only a text takes the rest of the line. -/
structure WellPlaced (before : List Field) (f : Field) : Prop where
  restText : f.position = restPosition → f.type = .text
  inRange : restPosition ≤ f.position
  apart : f.position ≠ 0 → ∀ g ∈ before, g.position ≠ f.position

/-- What is wrong with the position of a field behind others. -/
inductive Misplaced (before : List Field) (f : Field) : Defect → Prop
  | restNotText (hrest : f.position = restPosition) (htype : f.type ≠ .text) :
      Misplaced before f (.restFieldNotText f.name)
  | restTaken {first : Field} (hrest : f.position = restPosition) (htype : f.type = .text)
      (hfirst : before.find? (·.position == restPosition) = some first) :
      Misplaced before f (.multipleRestFields first.name f.name)
  | positionTaken (hpos : 0 < f.position) (htaken : ∃ g ∈ before, g.position = f.position) :
      Misplaced before f (.duplicatePosition f.name f.position)
  | outOfRange (hlt : f.position < restPosition) :
      Misplaced before f (.invalidPosition f.name f.position)

/-- What is wrong with a field behind others.  Its name is looked at first, then its flag, its
position and its type, and each of them only if there is nothing wrong with those before. -/
inductive Defective (before : List Field) (f : Field) : Defect → Prop
  | nameless (hname : IsGap f.name.toList) : Defective before f .emptyFieldName
  | nameTaken (hname : ¬ IsGap f.name.toList) (htaken : ∃ g ∈ before, g.name = f.name) :
      Defective before f (.duplicateField f.name)
  | flagTaken (hname : ¬ IsGap f.name.toList) (hnew : ∀ g ∈ before, g.name ≠ f.name)
      (htaken : ∃ g ∈ before, Text.lowercase g.flagName = Text.lowercase f.flagName) :
      Defective before f (.duplicateFlag f.flagName)
  | misplaced {d : Defect} (hnamed : f.Named before) (hplace : f.Misplaced before d) :
      Defective before f d
  | boolList (hnamed : f.Named before) (hplaced : f.WellPlaced before)
      (hlist : f.multiselect = true) (htype : f.type = .bool) :
      Defective before f (.multiselectBool f.name)
  | withoutOptions (hnamed : f.Named before) (hplaced : f.WellPlaced before)
      (htype : f.type = .staticSelect) (hnone : f.options = []) :
      Defective before f (.missingOptions f.name)

/-- There is nothing wrong with a field behind others. -/
structure Sound (before : List Field) (f : Field) : Prop where
  named : f.Named before
  placed : f.WellPlaced before
  single : f.type = .bool → f.multiselect = false
  hasOptions : f.type = .staticSelect → f.options ≠ []

end Field

namespace Form

variable {before : List Field} {f : Field} {d : Defect} {form : Form}

theorem positionDefect?_cases (before : List Field) (f : Field) :
    positionDefect? before f = none ∧ f.WellPlaced before ∨
      ∃ d, positionDefect? before f = some d ∧ f.Misplaced before d := by
  have hlast : restPosition = -1 := rfl
  unfold positionDefect?
  split
  · rename_i hrest
    split
    · rename_i htype
      exact .inr ⟨_, rfl, .restNotText hrest htype⟩
    · rename_i htype
      rw [Decidable.not_not] at htype
      cases hfirst : before.find? (·.position == restPosition) with
      | some first => exact .inr ⟨_, rfl, .restTaken hrest htype hfirst⟩
      | none =>
        refine .inl ⟨rfl, fun _ => htype, Int.le_of_eq hrest.symm, fun _ g hg => ?_⟩
        rw [hrest]
        simpa using List.find?_eq_none.mp hfirst g hg
  · rename_i hrest
    split
    · rename_i hpos
      split
      · rename_i htaken
        obtain ⟨g, hg, hsame⟩ := List.any_eq_true.mp htaken
        exact .inr ⟨_, rfl, .positionTaken hpos ⟨g, hg, beq_iff_eq.mp hsame⟩⟩
      · rename_i hnew
        refine .inl ⟨rfl, fun h => absurd h hrest, by omega, fun _ g hg hsame => ?_⟩
        exact hnew (List.any_eq_true.mpr ⟨g, hg, beq_iff_eq.mpr hsame⟩)
    · rename_i hpos
      split
      · rename_i hzero
        exact .inl ⟨rfl, fun h => absurd h hrest, by omega, fun h => absurd hzero h⟩
      · exact .inr ⟨_, rfl, .outOfRange (by omega)⟩

theorem positionDefect?_of_wellPlaced (h : f.WellPlaced before) :
    positionDefect? before f = none := by
  rcases positionDefect?_cases before f with ⟨hnone, -⟩ | ⟨d, -, hplace⟩
  · exact hnone
  · cases hplace with
    | restNotText hrest htype => exact absurd (h.restText hrest) htype
    | restTaken hrest _ hfirst =>
      have hsame := List.find?_some hfirst
      exact absurd ((beq_iff_eq.mp hsame).trans hrest.symm)
        (h.apart (by rw [hrest]; decide) _ (List.mem_of_find?_eq_some hfirst))
    | positionTaken hpos htaken =>
      obtain ⟨g, hg, hsame⟩ := htaken
      exact absurd hsame (h.apart (Int.ne_of_gt hpos) g hg)
    | outOfRange hlt => exact absurd h.inRange (Int.not_le.mpr hlt)

theorem positionDefect?_of_misplaced (h : f.Misplaced before d) :
    positionDefect? before f = some d := by
  have hlast : restPosition = -1 := rfl
  unfold positionDefect?
  cases h with
  | restNotText hrest htype => rw [if_pos hrest, if_pos htype]
  | restTaken hrest htype hfirst =>
    rw [if_pos hrest, if_neg (not_not_intro htype), hfirst]
    rfl
  | positionTaken hpos htaken =>
    have hany : (before.any fun g => g.position == f.position) = true := by simpa using htaken
    rw [if_neg (by omega), if_pos hpos, if_pos hany]
  | outOfRange hlt => rw [if_neg (by omega), if_neg (by omega), if_neg (by omega)]

/-- A field of another name and flag is looked at further. -/
theorem fieldDefect?_of_named (h : f.Named before) :
    fieldDefect? before f = (positionDefect? before f).or
      (if f.multiselect ∧ f.type = .bool then some (.multiselectBool f.name)
      else if f.type = .staticSelect ∧ f.options = [] then some (.missingOptions f.name)
      else none) := by
  have hvisible : ¬ (Text.trim f.name == "") = true := by
    rw [beq_iff_eq, trim_eq_empty_iff]
    exact h.visible
  have hname : ¬ (before.any fun g => g.name == f.name) = true := by
    simpa using fun g hg => (h.apart g hg).name
  have hflag : ¬ (before.any fun g => Text.eqIgnoreCase g.flagName f.flagName) = true := by
    simpa using fun g hg => (h.apart g hg).flagName
  rw [fieldDefect?, if_neg hvisible, if_neg hname, if_neg hflag]

theorem fieldDefect?_of_sound (h : f.Sound before) : fieldDefect? before f = none := by
  have hlist : ¬ (f.multiselect = true ∧ f.type = .bool) := fun hboth => by
    rw [h.single hboth.2] at hboth
    cases hboth.1
  rw [fieldDefect?_of_named h.named, positionDefect?_of_wellPlaced h.placed, Option.none_or,
    if_neg hlist, if_neg fun hboth => h.hasOptions hboth.1 hboth.2]

theorem fieldDefect?_of_defective (h : f.Defective before d) : fieldDefect? before f = some d := by
  cases h with
  | nameless hname =>
    rw [fieldDefect?, if_pos (beq_iff_eq.mpr (trim_eq_empty_iff.mpr hname))]
  | nameTaken hname htaken =>
    rw [← trim_eq_empty_iff, ← beq_iff_eq] at hname
    rw [fieldDefect?, if_neg hname, if_pos (by simpa using htaken)]
  | flagTaken hname hnew htaken =>
    rw [← trim_eq_empty_iff, ← beq_iff_eq] at hname
    rw [fieldDefect?, if_neg hname, if_neg (by simpa using hnew),
      if_pos (by simpa [Text.eqIgnoreCase] using htaken)]
  | misplaced hnamed hplace =>
    rw [fieldDefect?_of_named hnamed, positionDefect?_of_misplaced hplace, Option.some_or]
  | boolList hnamed hplaced hlist htype =>
    rw [fieldDefect?_of_named hnamed, positionDefect?_of_wellPlaced hplaced, Option.none_or,
      if_pos ⟨hlist, htype⟩]
  | withoutOptions hnamed hplaced htype hnone =>
    have hlist : ¬ (f.multiselect = true ∧ f.type = .bool) := by
      rw [htype]
      exact nofun
    rw [fieldDefect?_of_named hnamed, positionDefect?_of_wellPlaced hplaced, Option.none_or,
      if_neg hlist, if_pos ⟨htype, hnone⟩]

/-- A field is sound or has a defect. -/
theorem sound_or_defective (before : List Field) (f : Field) :
    f.Sound before ∨ ∃ d, f.Defective before d := by
  by_cases hname : IsGap f.name.toList
  · exact .inr ⟨_, .nameless hname⟩
  by_cases hnew : ∃ g ∈ before, g.name = f.name
  · exact .inr ⟨_, .nameTaken hname hnew⟩
  have hnew' : ∀ g ∈ before, g.name ≠ f.name := fun g hg hsame => hnew ⟨g, hg, hsame⟩
  by_cases hflag : ∃ g ∈ before, Text.lowercase g.flagName = Text.lowercase f.flagName
  · exact .inr ⟨_, .flagTaken hname hnew' hflag⟩
  have hnamed : f.Named before := by
    refine ⟨hname, fun g hg => ⟨hnew' g hg, ?_⟩⟩
    exact beq_eq_false_iff_ne.mpr fun hsame => hflag ⟨g, hg, hsame⟩
  rcases positionDefect?_cases before f with ⟨-, hplaced⟩ | ⟨d, -, hplace⟩
  swap
  · exact .inr ⟨d, .misplaced hnamed hplace⟩
  by_cases hlist : f.multiselect = true ∧ f.type = .bool
  · exact .inr ⟨_, .boolList hnamed hplaced hlist.1 hlist.2⟩
  by_cases hnone : f.type = .staticSelect ∧ f.options = []
  · exact .inr ⟨_, .withoutOptions hnamed hplaced hnone.1 hnone.2⟩
  refine .inl ⟨hnamed, hplaced, fun htype => ?_, fun htype hempty => hnone ⟨htype, hempty⟩⟩
  exact Bool.eq_false_iff.mpr fun hmulti => hlist ⟨hmulti, htype⟩

theorem fieldDefect?_eq_some_iff : fieldDefect? before f = some d ↔ f.Defective before d := by
  refine ⟨fun h => ?_, fieldDefect?_of_defective⟩
  rcases sound_or_defective before f with hsound | ⟨d', hdefective⟩
  · rw [fieldDefect?_of_sound hsound] at h
    cases h
  · rw [fieldDefect?_of_defective hdefective] at h
    exact Option.some.inj h ▸ hdefective

theorem fieldDefect?_eq_none_iff : fieldDefect? before f = none ↔ f.Sound before := by
  refine ⟨fun h => ?_, fieldDefect?_of_sound⟩
  rcases sound_or_defective before f with hsound | ⟨d', hdefective⟩
  · exact hsound
  · rw [fieldDefect?_of_defective hdefective] at h
    cases h

end Form

end SlashCommand
