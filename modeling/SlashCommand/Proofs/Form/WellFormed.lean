import SlashCommand.Proofs.Form.Fields
import Mathlib.Order.Defs.Unbundled

/-!
# What makes a form well formed

Here it is said without the checks what a form has to be like (`Form.WellFormed`), and what its
first defect is (`Form.FirstDefect`).  Validation reports this one, or nothing if the form is well
formed (`Form.defect?_eq_some_iff`, `Form.defect?_eq_none_iff`).

## One loop for two lists

The fields of a form are checked one after the other, each against those before it, and so are the
bindings on a level of a tree.  This is `firstFailure?`.  What it comes to is said by places in the
list, and the rest of the argument is about one member at a time: behind others it is sound or has a
defect (`Field.Sound`, `Field.Defective`), and which of the two is what the checks find out.
-/

namespace SlashCommand

/-! ## The first member that fails -/

section FirstFailure

variable {α β : Type} {check : List α → α → Option β} {before l : List α} {d : β}

/-- The first failure in a list whose members are each checked against those before it, when the
list stands behind the members `before`. -/
def firstFailure? (check : List α → α → Option β) (before : List α) : List α → Option β
  | [] => none
  | a :: l => (check before a).or (firstFailure? check (before ++ [a]) l)

theorem firstFailure?_eq_none_iff : firstFailure? check before l = none ↔
    ∀ i a, l[i]? = some a → check (before ++ l.take i) a = none := by
  induction l generalizing before with
  | nil => exact iff_of_true rfl nofun
  | cons a l ih =>
    rw [firstFailure?, Option.or_eq_none_iff, ih]
    constructor
    · rintro ⟨hfirst, hrest⟩ (_ | i) c hc
      · cases hc
        rwa [List.take_zero, List.append_nil]
      · rw [List.take_succ_cons, List.append_cons]
        exact hrest i c hc
    · intro h
      refine ⟨?_, fun i c hc => ?_⟩
      · have hfirst := h 0 a rfl
        rwa [List.take_zero, List.append_nil] at hfirst
      · have hrest := h (i + 1) c hc
        rwa [List.take_succ_cons, List.append_cons] at hrest

/-- A failure that is found is that of a member, and no member in front of it fails. -/
theorem exists_of_firstFailure? (h : firstFailure? check before l = some d) :
    ∃ i a, l[i]? = some a ∧ check (before ++ l.take i) a = some d ∧
      ∀ j < i, ∀ c, l[j]? = some c → check (before ++ l.take j) c = none := by
  induction l generalizing before with
  | nil => cases h
  | cons a l ih =>
    rcases Option.or_eq_some_iff.mp h with hfirst | ⟨hfirst, hrest⟩
    · refine ⟨0, a, rfl, ?_, nofun⟩
      rwa [List.take_zero, List.append_nil]
    · obtain ⟨i, c, hc, hfails, hpass⟩ := ih hrest
      refine ⟨i + 1, c, hc, ?_, ?_⟩
      · rwa [List.take_succ_cons, List.append_cons]
      · rintro (_ | j) hj c' hc'
        · cases hc'
          rwa [List.take_zero, List.append_nil]
        · rw [List.take_succ_cons, List.append_cons]
          exact hpass j (Nat.lt_of_succ_lt_succ hj) c' hc'

/-- What holds between each member and those before it holds pairwise. -/
theorem pairwise_iff_take {R : α → α → Prop} :
    l.Pairwise R ↔ ∀ i a, l[i]? = some a → ∀ b ∈ l.take i, R b a := by
  rw [List.pairwise_iff_getElem]
  constructor
  · intro h i a ha b hb
    obtain ⟨hi, rfl⟩ := List.getElem?_eq_some_iff.mp ha
    obtain ⟨j, hj, rfl⟩ := List.mem_take_iff_getElem.mp hb
    exact h j i _ hi (Nat.lt_of_lt_of_le hj (Nat.min_le_left i l.length))
  · intro h i j hi hj hlt
    refine h j l[j] (List.getElem?_eq_getElem hj) l[i] (List.mem_take_iff_getElem.mpr ?_)
    exact ⟨i, Nat.lt_min.mpr ⟨hlt, hi⟩, rfl⟩

/-- Of the failures at some places, this is the one at the first place that has one. -/
def IsFirst {ι : Type} (r : ι → ι → Prop) (failsAt : ι → β → Prop) (d : β) : Prop :=
  ∃ i, failsAt i d ∧ ∀ j, r j i → ∀ d', ¬ failsAt j d'

theorem IsFirst.unique {ι : Type} {r : ι → ι → Prop} [Std.Trichotomous r]
    {failsAt : ι → β → Prop} {d' : β} (h : IsFirst r failsAt d) (h' : IsFirst r failsAt d')
    (hunique : ∀ {i : ι} {d d' : β}, failsAt i d → failsAt i d' → d = d') : d = d' := by
  obtain ⟨i, hi, hbefore⟩ := h
  obtain ⟨j, hj, hbefore'⟩ := h'
  rcases trichotomous_of r i j with hlt | rfl | hlt
  · exact absurd hi (hbefore' i hlt d)
  · exact hunique hi hj
  · exact absurd hj (hbefore j hlt d')

end FirstFailure

/-! ## Forms -/

namespace Form

variable {form : Form} {d : Defect}

/-- What a form has to be like. -/
structure WellFormed (form : Form) : Prop where
  names_visible : ∀ f ∈ form.fields, ¬ IsGap f.name.toList
  names_nodup : (form.fields.map (·.name)).Nodup
  flags_nodup : (form.fields.map fun f => Text.lowercase f.flagName).Nodup
  positions_ge : ∀ f ∈ form.fields, -1 ≤ f.position
  positions_apart : form.fields.Pairwise fun g f => 0 < f.position → g.position ≠ f.position
  rest_text : ∀ f ∈ form.fields, f.position = -1 → f.type = .text
  rest_unique : form.fields.Pairwise fun g f => ¬ (g.position = -1 ∧ f.position = -1)
  bools_single : ∀ f ∈ form.fields, f.type = .bool → f.multiselect = false
  selects_nonempty : ∀ f ∈ form.fields, f.type = .staticSelect → f.options ≠ []

/-- The field at the place has the defect. -/
def DefectAt (form : Form) (i : Nat) (d : Defect) : Prop :=
  ∃ f : Field, form.fields[i]? = some f ∧ f.Defective (form.fields.take i) d

/-- The defect is that of the first field that has one. -/
def FirstDefect (form : Form) (d : Defect) : Prop := IsFirst (· < ·) form.DefectAt d

theorem defectAfter?_eq_firstFailure? (before fields : List Field) :
    defectAfter? before fields = firstFailure? fieldDefect? before fields := by
  induction fields generalizing before with
  | nil => rfl
  | cons f fields ih => rw [defectAfter?, firstFailure?, ih]

/-- A form is well formed if each field is sound behind those before it. -/
theorem wellFormed_iff_sound : form.WellFormed ↔
    ∀ i (f : Field), form.fields[i]? = some f → f.Sound (form.fields.take i) := by
  constructor
  · intro h i f hf
    have hmem : f ∈ form.fields := List.mem_of_getElem? hf
    have hnames := pairwise_iff_take.mp (List.pairwise_map.mp h.names_nodup) i f hf
    have hflags := pairwise_iff_take.mp (List.pairwise_map.mp h.flags_nodup) i f hf
    have hpositions := pairwise_iff_take.mp h.positions_apart i f hf
    have hrest := pairwise_iff_take.mp h.rest_unique i f hf
    have hrange := h.positions_ge f hmem
    refine ⟨⟨h.names_visible f hmem, fun g hg => ⟨hnames g hg, ?_⟩⟩,
      ⟨h.rest_text f hmem, hrange, fun hne g hg hsame => ?_⟩, h.bools_single f hmem,
      h.selects_nonempty f hmem⟩
    · exact beq_eq_false_iff_ne.mpr (hflags g hg)
    · rcases Int.lt_or_gt_of_ne hne with hneg | hpos
      · have hlast : f.position = -1 := by omega
        exact hrest g hg ⟨hsame.trans hlast, hlast⟩
      · exact hpositions g hg hpos hsame
  · intro h
    have hall {p : Field → Prop} (hp : ∀ i f, form.fields[i]? = some f → p f) :
        ∀ f ∈ form.fields, p f := fun f hf => by
      obtain ⟨i, hi⟩ := List.mem_iff_getElem?.mp hf
      exact hp i f hi
    refine ⟨hall fun i f hf => (h i f hf).named.visible, ?_, ?_,
      hall fun i f hf => (h i f hf).placed.inRange, ?_,
      hall fun i f hf => (h i f hf).placed.restText, ?_,
      hall fun i f hf => (h i f hf).single, hall fun i f hf => (h i f hf).hasOptions⟩
    · exact List.pairwise_map.mpr (pairwise_iff_take.mpr fun i f hf g hg =>
        ((h i f hf).named.apart g hg).name)
    · exact List.pairwise_map.mpr (pairwise_iff_take.mpr fun i f hf g hg =>
        beq_eq_false_iff_ne.mp ((h i f hf).named.apart g hg).flagName)
    · exact pairwise_iff_take.mpr fun i f hf g hg hpos =>
        (h i f hf).placed.apart (Int.ne_of_gt hpos) g hg
    · refine pairwise_iff_take.mpr fun i f hf g hg hboth => ?_
      refine (h i f hf).placed.apart ?_ g hg (hboth.1.trans hboth.2.symm)
      rw [hboth.2]
      decide

theorem defect?_eq_none_iff : form.defect? = none ↔ form.WellFormed := by
  rw [defect?, defectAfter?_eq_firstFailure?, firstFailure?_eq_none_iff, wellFormed_iff_sound]
  simp only [List.nil_append, fieldDefect?_eq_none_iff]

/-- A place has one defect at most. -/
theorem DefectAt.unique {i : Nat} {d' : Defect} (h : form.DefectAt i d) (h' : form.DefectAt i d') :
    d = d' := by
  obtain ⟨f, hf, hdefective⟩ := h
  obtain ⟨g, hg, hdefective'⟩ := h'
  cases hf.symm.trans hg
  rw [← fieldDefect?_eq_some_iff] at hdefective hdefective'
  exact Option.some.inj (hdefective.symm.trans hdefective')

theorem DefectAt.not_wellFormed {i : Nat} (h : form.DefectAt i d) : ¬ form.WellFormed := by
  obtain ⟨f, hf, hdefective⟩ := h
  intro hwell
  rw [← fieldDefect?_eq_some_iff, fieldDefect?_of_sound (wellFormed_iff_sound.mp hwell i f hf)]
    at hdefective
  cases hdefective

theorem firstDefect_of_defect? (h : form.defect? = some d) : form.FirstDefect d := by
  rw [defect?, defectAfter?_eq_firstFailure?] at h
  obtain ⟨i, f, hf, hfails, hpass⟩ := exists_of_firstFailure? h
  refine ⟨i, ⟨f, hf, fieldDefect?_eq_some_iff.mp hfails⟩, fun j hj d' ⟨g, hg, hdefective⟩ => ?_⟩
  have hnone := hpass j hj g hg
  rw [List.nil_append, fieldDefect?_of_defective hdefective] at hnone
  cases hnone

theorem defect?_eq_some_iff : form.defect? = some d ↔ form.FirstDefect d := by
  refine ⟨firstDefect_of_defect?, fun h => ?_⟩
  cases hfound : form.defect? with
  | none =>
    obtain ⟨i, hat, -⟩ := h
    exact absurd (defect?_eq_none_iff.mp hfound) hat.not_wellFormed
  | some d' =>
    exact congrArg some (IsFirst.unique (firstDefect_of_defect? hfound) h DefectAt.unique)

end Form

end SlashCommand
