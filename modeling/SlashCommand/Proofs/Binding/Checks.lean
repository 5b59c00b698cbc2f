import SlashCommand.Proofs.Binding.Validation

/-!
# The checks find the first defect

The checks of a form and of a tree collect what they find in a list, and what they have passed in
sets.  Nothing in their types says that the list has one member at most.  That it has, and that the
member is the first defect, is proved here: `Form.defects_eq_toList`,
`Binding.treeDefects_eq_toList` and `BindingPackage.defects_eq_toList`.

For this the sets have to hold what the fields and the siblings before have, and nothing else
(`FormCheck.Tracks`, `Binding.Records`).  The list is empty as long as the checks go on, because
they return with the first thing that is in it.  And the path is the same behind a subtree as in
front of it, since it is taken back before anything is returned (`Binding.run_levelDefects`).
-/

namespace SlashCommand

/-- A word is as it is when it is trimmed. -/
theorem trim_of_isWord {s : String} (h : IsWord s.toList) : Text.trim s = s := by
  have hdrop {l : List Char} (hl : ∀ c ∈ l, Text.isBlank c = false) :
      l.dropWhile Text.isBlank = l := by
    cases l with
    | nil => rfl
    | cons c l => exact List.dropWhile_cons_of_neg (by rw [hl c List.mem_cons_self]; exact nofun)
  have hreverse : ∀ c ∈ s.toList.reverse, Text.isBlank c = false :=
    fun c hc => h c (List.mem_reverse.mp hc)
  rw [Text.trim, Text.trimEnd, hdrop h, String.ofList_toList, hdrop hreverse, List.reverse_reverse,
    String.ofList_toList]

/-- A set that has the keys of some members has those of one more when its key is put in. -/
theorem mem_insert_key_iff {α β : Type} [BEq β] [Hashable β] [LawfulBEq β] {keys : Std.HashSet β}
    {l : List α} {k : β} (key : α → β) (a : α) (h : k ∈ keys ↔ ∃ g ∈ l, key g = k) :
    k ∈ keys.insert (key a) ↔ ∃ g ∈ l ++ [a], key g = k := by
  rw [Std.HashSet.mem_insert, h, beq_iff_eq]
  simp only [List.mem_append, List.mem_singleton]
  constructor
  · rintro (hk | ⟨g, hg, hk⟩)
    · exact ⟨a, .inr rfl, hk⟩
    · exact ⟨g, .inl hg, hk⟩
  · rintro ⟨g, hg | rfl, hk⟩
    · exact .inr ⟨g, hg, hk⟩
    · exact .inl hk

/-! ## Forms -/

namespace FormCheck

variable {named placed before fields : List Field} {s : FormCheck} {f : Field} {d : Defect}

/-- No defect was found so far; the names and the flags are those of the one list of fields, the
positions and the rest of the line those of the other. -/
structure Tracks (named placed : List Field) (s : FormCheck) : Prop where
  defects : s.defects = []
  names : ∀ name : String, name ∈ s.names ↔ ∃ g ∈ named, g.name = name
  flags : ∀ flag : String, flag ∈ s.flags ↔ ∃ g ∈ named, Text.lowercase g.flagName = flag
  positions : ∀ p : Int, 0 < p → (p ∈ s.positions ↔ ∃ g ∈ placed, g.position = p)
  rest : s.rest = (placed.find? (·.position == restPosition)).map (·.name)

theorem tracks_empty : Tracks [] [] {} where
  defects := rfl
  names _ := iff_of_false Std.HashSet.not_mem_empty fun ⟨_, hg, _⟩ => nomatch hg
  flags _ := iff_of_false Std.HashSet.not_mem_empty fun ⟨_, hg, _⟩ => nomatch hg
  positions _ _ := iff_of_false Std.HashSet.not_mem_empty fun ⟨_, hg, _⟩ => nomatch hg
  rest := rfl

/-- The first defect that is reported is the only one in the list. -/
theorem Tracks.report_eq (h : Tracks named placed s) (d : Defect) : s.report d = .error [d] := by
  rw [report, h.defects, List.nil_append]

/-- The name and the flag of a field that is apart from those before are kept. -/
theorem exists_of_checkNames (h : Tracks before placed s) (hnamed : f.Named before) :
    ∃ s', s.checkNames f = .ok s' ∧ Tracks (before ++ [f]) placed s' := by
  have hvisible : ¬ (Text.trim f.name == "") = true := by
    rw [beq_iff_eq, trim_eq_empty_iff]
    exact hnamed.visible
  have hname : ¬ s.names.contains f.name = true := by
    rw [← Std.HashSet.mem_iff_contains, h.names]
    rintro ⟨g, hg, hsame⟩
    exact (hnamed.apart g hg).name hsame
  have hflag : ¬ s.flags.contains (Text.lowercase f.flagName) = true := by
    rw [← Std.HashSet.mem_iff_contains, h.flags]
    rintro ⟨g, hg, hsame⟩
    exact beq_eq_false_iff_ne.mp (hnamed.apart g hg).flagName hsame
  refine ⟨_, by rw [checkNames, if_neg hvisible, if_neg hname, if_neg hflag], ?_⟩
  exact ⟨h.defects, fun name => mem_insert_key_iff Field.name f (h.names name),
    fun flag => mem_insert_key_iff (fun g : Field => Text.lowercase g.flagName) f (h.flags flag),
    h.positions, h.rest⟩

/-- The position of a field in its place is kept. -/
theorem exists_of_checkPosition (h : Tracks named before s) (hplaced : f.WellPlaced before) :
    ∃ s', s.checkPosition f = .ok s' ∧ Tracks named (before ++ [f]) s' := by
  have hlast : restPosition = -1 := rfl
  have hother (hne : f.position ≠ restPosition) :
      (before ++ [f]).find? (·.position == restPosition) =
        before.find? (·.position == restPosition) := by
    rw [List.find?_append, List.find?_cons_of_neg (by simpa using hne), List.find?_nil,
      Option.or_none]
  by_cases hrest : f.position = restPosition
  · have hnone : before.find? (·.position == restPosition) = none := by
      refine List.find?_eq_none.mpr fun g hg hsame => ?_
      exact hplaced.apart (by rw [hrest]; decide) g hg ((beq_iff_eq.mp hsame).trans hrest.symm)
    have hfree : s.rest = none := by rw [h.rest, hnone, Option.map_none]
    refine ⟨{ s with rest := some f.name }, ?_, h.defects, h.names, h.flags, fun p hp => ?_, ?_⟩
    · rw [checkPosition, if_pos hrest, if_neg (not_not_intro (hplaced.restText hrest)), hfree]
    · rw [h.positions p hp]
      simp only [List.mem_append, List.mem_singleton, or_and_right, exists_or, exists_eq_left]
      exact ⟨.inl, fun hor => hor.resolve_right fun hsame => by omega⟩
    · have hfound : [f].find? (·.position == restPosition) = some f :=
        List.find?_cons_of_pos (beq_iff_eq.mpr hrest)
      rw [List.find?_append, hnone, Option.none_or, hfound]
      rfl
  by_cases hpos : 0 < f.position
  · have hfree : ¬ s.positions.contains f.position = true := by
      rw [← Std.HashSet.mem_iff_contains, h.positions _ hpos]
      rintro ⟨g, hg, hsame⟩
      exact hplaced.apart (Int.ne_of_gt hpos) g hg hsame
    refine ⟨{ s with positions := s.positions.insert f.position }, ?_, h.defects, h.names, h.flags,
      fun p hp => mem_insert_key_iff Field.position f (h.positions p hp), ?_⟩
    · rw [checkPosition, if_neg hrest, if_pos hpos, if_neg hfree]
    · rw [hother hrest]
      exact h.rest
  · have hzero : f.position = 0 := by
      have hrange := hplaced.inRange
      omega
    refine ⟨s, ?_, h.defects, h.names, h.flags, fun p hp => ?_, ?_⟩
    · rw [checkPosition, if_neg hrest, if_neg hpos, if_pos hzero]
    · rw [h.positions p hp]
      simp only [List.mem_append, List.mem_singleton, or_and_right, exists_or, exists_eq_left]
      exact ⟨.inl, fun hor => hor.resolve_right fun hsame => by omega⟩
    · rw [hother hrest]
      exact h.rest

/-- A position that is wrong is reported. -/
theorem checkPosition_of_misplaced (h : Tracks named before s) (hplace : f.Misplaced before d) :
    s.checkPosition f = .error [d] := by
  have hlast : restPosition = -1 := rfl
  rw [checkPosition]
  cases hplace with
  | restNotText hrest htype => rw [if_pos hrest, if_pos htype, h.report_eq]
  | restTaken hrest htype hfirst =>
    rw [if_pos hrest, if_neg (not_not_intro htype), h.rest, hfirst, Option.map_some]
    exact h.report_eq _
  | positionTaken hpos htaken =>
    have hmem : s.positions.contains f.position = true :=
      Std.HashSet.mem_iff_contains.mp ((h.positions _ hpos).mpr htaken)
    rw [if_neg (by omega), if_pos hpos, if_pos hmem, h.report_eq]
  | outOfRange hlt => rw [if_neg (by omega), if_neg (by omega), if_neg (by omega), h.report_eq]

/-- A field of another name and flag is looked at further. -/
theorem checkField_of_checkNames {s' : FormCheck} (h : s.checkNames f = .ok s') :
    s.checkField f = (s'.checkPosition f).bind (·.checkType f) := by
  rw [checkField, h]
  rfl

/-- A field behind which the checks go on is kept. -/
theorem exists_of_sound (h : Tracks before before s) (hsound : f.Sound before) :
    ∃ s', s.checkField f = .ok s' ∧ Tracks (before ++ [f]) (before ++ [f]) s' := by
  obtain ⟨s₁, hnames, h₁⟩ := exists_of_checkNames h hsound.named
  obtain ⟨s₂, hposition, h₂⟩ := exists_of_checkPosition h₁ hsound.placed
  have hlist : ¬ (f.multiselect = true ∧ f.type = .bool) := fun hboth => by
    rw [hsound.single hboth.2] at hboth
    cases hboth.1
  have htype : s₂.checkType f = .ok s₂ := by
    rw [checkType, if_neg hlist, if_neg fun hboth => hsound.hasOptions hboth.1 hboth.2]
  refine ⟨s₂, ?_, h₂⟩
  rw [checkField_of_checkNames hnames, hposition]
  exact htype

/-- The defect of a field is reported, and nothing else. -/
theorem checkField_of_defective (h : Tracks before before s) (hdefective : f.Defective before d) :
    s.checkField f = .error [d] := by
  have htyped (hnamed : f.Named before) (hplaced : f.WellPlaced before) :
      ∃ s', Tracks (before ++ [f]) (before ++ [f]) s' ∧ s.checkField f = s'.checkType f := by
    obtain ⟨s₁, hnames, h₁⟩ := exists_of_checkNames h hnamed
    obtain ⟨s₂, hposition, h₂⟩ := exists_of_checkPosition h₁ hplaced
    exact ⟨s₂, h₂, by rw [checkField_of_checkNames hnames, hposition]; rfl⟩
  cases hdefective with
  | nameless hname =>
    rw [checkField, checkNames, if_pos (beq_iff_eq.mpr (trim_eq_empty_iff.mpr hname)), h.report_eq]
    rfl
  | nameTaken hname htaken =>
    rw [← trim_eq_empty_iff, ← beq_iff_eq] at hname
    have hmem : s.names.contains f.name = true :=
      Std.HashSet.mem_iff_contains.mp ((h.names _).mpr htaken)
    rw [checkField, checkNames, if_neg hname, if_pos hmem, h.report_eq]
    rfl
  | flagTaken hname hnew htaken =>
    rw [← trim_eq_empty_iff, ← beq_iff_eq] at hname
    have hfree : ¬ s.names.contains f.name = true := by
      rw [← Std.HashSet.mem_iff_contains, h.names]
      rintro ⟨g, hg, hsame⟩
      exact hnew g hg hsame
    have hmem : s.flags.contains (Text.lowercase f.flagName) = true :=
      Std.HashSet.mem_iff_contains.mp ((h.flags _).mpr htaken)
    rw [checkField, checkNames, if_neg hname, if_neg hfree, if_pos hmem, h.report_eq]
    rfl
  | misplaced hnamed hplace =>
    obtain ⟨s₁, hnames, h₁⟩ := exists_of_checkNames h hnamed
    rw [checkField_of_checkNames hnames, checkPosition_of_misplaced h₁ hplace]
    rfl
  | boolList hnamed hplaced hlist htype =>
    obtain ⟨s', h', hfield⟩ := htyped hnamed hplaced
    rw [hfield, checkType, if_pos ⟨hlist, htype⟩, h'.report_eq]
  | withoutOptions hnamed hplaced htype hnone =>
    obtain ⟨s', h', hfield⟩ := htyped hnamed hplaced
    have hlist : ¬ (f.multiselect = true ∧ f.type = .bool) := by
      rw [htype]
      exact nofun
    rw [hfield, checkType, if_neg hlist, if_pos ⟨htype, hnone⟩, h'.report_eq]

/-- Checking the fields behind others comes to the first defect among them, or to none. -/
theorem foldlM_checkField (h : Tracks before before s) :
    (match fields.foldlM checkField s with
      | .ok s' => s'.defects
      | .error ds => ds) = (Form.defectAfter? before fields).toList := by
  induction fields generalizing before s with
  | nil => exact h.defects
  | cons f fields ih =>
    rw [List.foldlM_cons, Form.defectAfter?]
    rcases Form.sound_or_defective before f with hsound | ⟨d, hdefective⟩
    · obtain ⟨s', hfield, h'⟩ := exists_of_sound h hsound
      rw [hfield, Form.fieldDefect?_of_sound hsound, Option.none_or]
      exact ih h'
    · rw [checkField_of_defective h hdefective, Form.fieldDefect?_of_defective hdefective,
        Option.some_or]
      rfl

end FormCheck

/-- The checks of a form find its first defect and no other. -/
theorem Form.defects_eq_toList (form : Form) : form.defects = form.defect?.toList :=
  FormCheck.foldlM_checkField FormCheck.tracks_empty

/-! ## Trees -/

namespace Binding

variable {path before : List String} {seen : Std.HashSet String} {bindings : List Binding}

/-- The set has the labels in small letters. -/
def Records (seen : Std.HashSet String) (before : List String) : Prop :=
  ∀ word : String, word ∈ seen ↔ ∃ label ∈ before, Text.lowercase label = word

theorem records_empty : Records ∅ [] := fun _ =>
  iff_of_false Std.HashSet.not_mem_empty fun ⟨_, hl, _⟩ => nomatch hl

theorem Records.insert (h : Records seen before) (label : String) :
    Records (seen.insert (Text.lowercase label)) (before ++ [label]) :=
  fun word => mem_insert_key_iff Text.lowercase label (h word)

theorem Records.contains_eq (h : Records seen before) (label : String) :
    seen.contains (Text.lowercase label) = before.any fun l => Text.eqIgnoreCase l label := by
  rw [Bool.eq_iff_iff, ← Std.HashSet.mem_iff_contains, h]
  simp [Text.eqIgnoreCase]

theorem hasBlank_eq_false_iff {s : String} : Text.hasBlank s = false ↔ IsWord s.toList := by
  unfold Text.hasBlank IsWord
  rw [List.any_eq_false]
  simp only [Bool.not_eq_true]

/-- The checks of siblings find the first defect among them and below them, and no other.  They
leave the path as they find it. -/
theorem run_levelDefects {before : List String} {seen : Std.HashSet String} (path : List String) :
    (bindings : List Binding) → Records seen before →
    (levelDefects seen [] bindings).run path =
      ((defectBelow? path before bindings).toList, path)
  | [], _ => by
    rw [levelDefects, defectBelow?]
    rfl
  | ⟨_, label, _, _, _, _, _, form, children⟩ :: rest, h => by
    have hbelow := run_levelDefects (path ++ [label]) children records_empty
    have hrest := run_levelDefects path rest (h.insert label)
    rw [levelDefects, defectBelow?, labelDefect?]
    by_cases hempty : (Text.trim label == "") = true
    · rw [if_pos hempty, if_pos hempty]
      rfl
    by_cases hblank : Text.hasBlank label = true
    · rw [if_neg hempty, if_neg hempty, if_pos hblank, if_pos hblank]
      rfl
    have hword : Text.trim label = label :=
      trim_of_isWord (hasBlank_eq_false_iff.mp (Bool.eq_false_iff.mpr hblank))
    rw [if_neg hempty, if_neg hempty, if_neg hblank, if_neg hblank, hword, h.contains_eq]
    by_cases htaken : (before.any fun l => Text.eqIgnoreCase l label) = true
    · rw [if_pos htaken, if_pos htaken]
      rfl
    rw [if_neg htaken, if_neg htaken, Option.none_or]
    -- what is below is looked at only if there is no form, or no defect in it
    have hchildren : (do
          modify (· ++ [label])
          let ds ← levelDefects ∅ [] children
          modify List.dropLast
          if !ds.isEmpty then
            return ds
          levelDefects (seen.insert (Text.lowercase label)) ds rest :
            StateM (List String) (List Defect)).run path =
        (((defectBelow? (path ++ [label]) [] children).or
          (defectBelow? path (before ++ [label]) rest)).toList, path) := by
      rw [StateT.run_bind, StateT.run_modify, pure_bind, StateT.run_bind, hbelow]
      cases defectBelow? (path ++ [label]) [] children with
      | none =>
        show (levelDefects (seen.insert (Text.lowercase label)) [] rest).run
          (path ++ [label]).dropLast = _
        rw [List.dropLast_concat, hrest, Option.none_or]
      | some d =>
        show ([d], (path ++ [label]).dropLast) = _
        rw [List.dropLast_concat, Option.some_or]
        rfl
    cases form with
    | none => exact hchildren
    | some f =>
      rw [Option.map_some, Option.getD_some, f.defects_eq_toList, Option.bind_some]
      cases f.defect? with
      | none => exact hchildren
      | some d => rfl

/-- The checks of a tree find its first defect and no other. -/
theorem treeDefects_eq_toList (bindings : List Binding) :
    treeDefects bindings = (treeDefect? bindings).toList :=
  congrArg Prod.fst (run_levelDefects [] bindings records_empty)

end Binding

/-- So do the checks of a package. -/
theorem BindingPackage.defects_eq_toList (p : BindingPackage) : p.defects = p.defect?.toList := by
  rw [defects, defect?]
  split
  · rfl
  · exact Binding.treeDefects_eq_toList p.bindings

end SlashCommand
