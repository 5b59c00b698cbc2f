import SlashCommand.Proofs.Form.WellFormed

/-!
# What validation guarantees

A tree without a defect can be relied on in two ways.  Its labels are words, so that each is one
token of a command.  And no two siblings, and no two fields of a form, answer to the same name, so
that a look-up by name finds the one that is meant.

* `Form.pairwise_apart`, `Form.pairwise_placedApart`: fields differ in name and flag, and in place.
* `Form.find?_flagName_of_mem`: every field of a form is the one with its flag.
* `Binding.find?_label_of_mem`: every binding is the one with its label among its siblings.
* `Binding.defectBelow?_of_mem`: what holds of a level holds of the levels below.
-/

namespace SlashCommand

/-- In a list whose members are told apart by a test, each member is the first to pass its own. -/
theorem find?_eq_some_of_pairwise {α : Type} {p : α → α → Bool} {l : List α} {a : α}
    (h : l.Pairwise fun b c => p b c = false) (hrefl : p a a = true) (ha : a ∈ l) :
    l.find? (p · a) = some a := by
  induction l with
  | nil => cases ha
  | cons b l ih =>
    obtain ⟨hhead, htail⟩ := List.pairwise_cons.mp h
    rcases List.mem_cons.mp ha with rfl | ha
    · exact List.find?_cons_of_pos hrefl
    · rw [List.find?_cons_of_neg (by simp [hhead a ha])]
      exact ih htail ha

theorem eqIgnoreCase_self (s : String) : Text.eqIgnoreCase s s = true :=
  beq_self_eq_true (Text.lowercase s)

/-! ## Forms -/

/-- Two fields are given at different positions, and not both of them take the rest of the line. -/
structure Field.PlacedApart (g f : Field) : Prop where
  position : 0 < f.position → g.position ≠ f.position
  rest : ¬ (g.isRest = true ∧ f.isRest = true)

/-- A field in its place is apart from those before it. -/
theorem Field.WellPlaced.placedApart {before : List Field} {f : Field} (h : f.WellPlaced before) :
    ∀ g ∈ before, g.PlacedApart f := by
  intro g hg
  refine ⟨fun hpos => h.apart (Int.ne_of_gt hpos) g hg, fun ⟨hrest, hrest'⟩ => ?_⟩
  simp only [Field.isRest, Bool.and_eq_true, beq_iff_eq] at hrest hrest'
  exact h.apart (by rw [hrest'.1]; decide) g hg (hrest.1.trans hrest'.1.symm)

namespace Form

variable {form : Form} {f : Field}

/-- A field of a form without a defect is sound behind those before it. -/
theorem sound_of_getElem? (h : form.defect? = none) {i : Nat} (hf : form.fields[i]? = some f) :
    f.Sound (form.fields.take i) :=
  wellFormed_iff_sound.mp (defect?_eq_none_iff.mp h) i f hf

/-- The fields of a form without a defect are apart from each other. -/
theorem pairwise_apart (h : form.defect? = none) : form.fields.Pairwise Field.Apart :=
  pairwise_iff_take.mpr fun _ _ hf => (sound_of_getElem? h hf).named.apart

/-- The fields of a form without a defect are given in places apart from each other. -/
theorem pairwise_placedApart (h : form.defect? = none) : form.fields.Pairwise Field.PlacedApart :=
  pairwise_iff_take.mpr fun _ _ hf => (sound_of_getElem? h hf).placed.placedApart

theorem nodup_names (h : form.defect? = none) : (form.fields.map (·.name)).Nodup :=
  (defect?_eq_none_iff.mp h).names_nodup

/-- In a form without a defect every field is the one that its flag selects. -/
theorem find?_flagName_of_mem (h : form.defect? = none) (hf : f ∈ form.fields) :
    form.fields.find? (fun g => Text.eqIgnoreCase g.flagName f.flagName) = some f := by
  have hpairwise := (pairwise_apart h).imp fun hab => hab.flagName
  exact find?_eq_some_of_pairwise hpairwise (eqIgnoreCase_self f.flagName) hf

/-- In a form without a defect every field is the one of its name. -/
theorem field?_of_mem (h : form.defect? = none) (hf : f ∈ form.fields) :
    form.field? f.name = some f := by
  have hpairwise := (pairwise_apart h).imp fun hab => beq_false_of_ne hab.name
  exact find?_eq_some_of_pairwise hpairwise (beq_self_eq_true f.name) hf

/-- In a form without a defect no truth value takes a list. -/
theorem multiselect_of_bool (h : form.defect? = none) (hf : f ∈ form.fields)
    (hbool : f.type = .bool) : f.multiselect = false :=
  (defect?_eq_none_iff.mp h).bools_single f hf hbool

/-- In a form without a defect a field is known by its name. -/
theorem eq_of_name_eq (h : form.defect? = none) {g : Field} (hg : g ∈ form.fields)
    (hf : f ∈ form.fields) (hname : g.name = f.name) : g = f := by
  have hfind := field?_of_mem h hg
  rw [hname, field?_of_mem h hf] at hfind
  exact (Option.some.inj hfind).symm

end Form

/-! ## Bindings -/

namespace Binding

variable {path before : List String} {bindings : List Binding} {b : Binding} {label : String}

/-- A label without a defect is a word, and none of the labels before it. -/
theorem word_of_labelDefect?_eq_none (h : labelDefect? path before label = none) :
    label ≠ "" ∧ IsWord label.toList ∧
      ∀ l ∈ before, Text.eqIgnoreCase l label = false := by
  unfold labelDefect? at h
  split at h
  · cases h
  · rename_i hempty
    split at h
    · cases h
    · rename_i hblank
      split at h
      · cases h
      · rename_i hbefore
        refine ⟨?_, ?_, by simpa using hbefore⟩
        · rintro rfl
          exact hempty (by decide)
        · simpa [IsWord, Text.hasBlank] using hblank

theorem defectBelow?_nil : defectBelow? path before [] = none := by
  rw [defectBelow?]

/-- Siblings have no defect if there is none in the first one, below it, and in the others. -/
theorem defectBelow?_cons_eq_none_iff : defectBelow? path before (b :: bindings) = none ↔
    labelDefect? path before b.label = none ∧ b.form.bind Form.defect? = none ∧
      defectBelow? (path ++ [b.label]) [] b.bindings = none ∧
      defectBelow? path (before ++ [b.label]) bindings = none := by
  cases b
  simp only [defectBelow?, Option.or_eq_none_iff]

/-- A leaf without a defect may stand in front of siblings without one. -/
theorem defectBelow?_cons_of_leaf (hlabel : labelDefect? path before b.label = none)
    (hform : b.form.bind Form.defect? = none) (hleaf : b.bindings = [])
    (hrest : defectBelow? path (before ++ [b.label]) bindings = none) :
    defectBelow? path before (b :: bindings) = none := by
  refine defectBelow?_cons_eq_none_iff.mpr ⟨hlabel, hform, ?_, hrest⟩
  rw [hleaf]
  exact defectBelow?_nil

/-- The labels of siblings without a defect are none of the labels before them. -/
theorem ne_before_of_defectBelow? (h : defectBelow? path before bindings = none) :
    ∀ b ∈ bindings, ∀ l ∈ before, Text.eqIgnoreCase l b.label = false := by
  induction bindings generalizing before with
  | nil => exact fun b hb => absurd hb List.not_mem_nil
  | cons b bindings ih =>
    obtain ⟨hlabel, -, -, hrest⟩ := defectBelow?_cons_eq_none_iff.mp h
    intro b' hb' l hl
    rcases List.mem_cons.mp hb' with rfl | hb'
    · exact (word_of_labelDefect?_eq_none hlabel).2.2 l hl
    · exact ih hrest b' hb' l (List.mem_append_left _ hl)

/-- Siblings without a defect have different labels. -/
theorem pairwise_label (h : defectBelow? path before bindings = none) :
    bindings.Pairwise fun a b => Text.eqIgnoreCase a.label b.label = false := by
  induction bindings generalizing before with
  | nil => exact .nil
  | cons b bindings ih =>
    obtain ⟨-, -, -, hrest⟩ := defectBelow?_cons_eq_none_iff.mp h
    refine .cons (fun b' hb' => ?_) (ih hrest)
    exact ne_before_of_defectBelow? hrest b' hb' b.label (by simp)

/-- Among siblings without a defect every binding is the one that its label selects. -/
theorem find?_label_of_mem (h : defectBelow? path before bindings = none) (hb : b ∈ bindings) :
    find? bindings b.label = some b :=
  find?_eq_some_of_pairwise (pairwise_label h) (eqIgnoreCase_self b.label) hb

/-- The binding of a label has that label, up to case. -/
theorem label_of_find? (h : find? bindings label = some b) :
    Text.eqIgnoreCase b.label label = true := by
  unfold find? at h
  have hlabel := List.find?_some h
  exact hlabel

/-- Among siblings without a defect every binding is the one that its label selects, in any case. -/
theorem find?_of_label (h : defectBelow? path before bindings = none) (hb : b ∈ bindings)
    (hlabel : Text.eqIgnoreCase b.label label = true) : find? bindings label = some b := by
  have hsame : find? bindings label = find? bindings b.label := by
    unfold find? Text.eqIgnoreCase
    rw [beq_iff_eq.mp hlabel]
  rw [hsame, find?_label_of_mem h hb]

/-- A binding among siblings without a defect has a word for a label and a form without a defect,
and there is no defect below it. -/
theorem defectBelow?_of_mem (h : defectBelow? path before bindings = none) (hb : b ∈ bindings) :
    (b.label ≠ "" ∧ IsWord b.label.toList) ∧
      (∀ form, b.form = some form → form.defect? = none) ∧
      defectBelow? (path ++ [b.label]) [] b.bindings = none := by
  induction bindings generalizing before with
  | nil => cases hb
  | cons b' bindings ih =>
    obtain ⟨hlabel, hform, hbelow, hrest⟩ := defectBelow?_cons_eq_none_iff.mp h
    rcases List.mem_cons.mp hb with rfl | hb
    · obtain ⟨hne, hblank, -⟩ := word_of_labelDefect?_eq_none hlabel
      refine ⟨⟨hne, hblank⟩, ?_, hbelow⟩
      intro form hsome
      rwa [hsome] at hform
    · exact ih hrest hb

end Binding

end SlashCommand
