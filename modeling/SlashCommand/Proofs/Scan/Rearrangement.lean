import SlashCommand.Proofs.Scan.DeepestMatch
import SlashCommand.Proofs.Scan.Renaming

/-!
# The order of declaration

A valid tree may have its siblings, at any level, and the fields of its forms in any order: a
command is read the same way.  The descent keeps to bindings that are alike, because a label leads
to only one of the siblings (`related_descentStep`).  Behind it the parameters are read with the
same form, whose fields have other places, and the scan differs in these places only.

* `sameDescent_matchBinding`: the descents of the two trees stay side by side.
* `SameDescent.parseInline`: so do the scans with the forms of the bindings that they end at.
* `matchBinding_rearranged`: what is read does not depend on the order of declaration.
-/

namespace SlashCommand

namespace Scan

/-- What was read is the same: the location and the app, the values, the number of parameters given
by place, the current token with its position, and the error. -/
structure SameReading (s s' : Scan) : Prop where
  location : s'.location = s.location
  appId : s'.appId = s.appId
  values : s'.values = s.values
  positionals : s'.positionals = s.positionals
  token : s'.token = s.token
  tokenStart : s'.tokenStart = s.tokenStart
  error : s'.error? = s.error?

/-- Reads the parameters with the inline form of the matched binding, if it has one. -/
def parseInline (s : Scan) (mode : ScanMode) : Scan :=
  match s.binding.bind (·.form) with
  | some form => (s.withForm form).parseForm mode
  | none => s

/-- Two scans differ in the matched binding and what is below it only, and there in the order.  What
is below has no defect, and neither does the form of the binding. -/
structure SameDescent (s s' : Scan) : Prop where
  same : ∃ binding candidates, s' = { s with binding, candidates }
  binding : Option.Rel Binding.Alike s.binding s'.binding
  candidates : Binding.Rearranged s.candidates s'.candidates
  below : ∃ path before, Binding.defectBelow? path before s.candidates = none
  form : ∀ b, s.binding = some b → ∀ form, b.form = some form → form.defect? = none

theorem sameReading_renamed {s t : Scan} {place : Nat → Nat} :
    SameReading s (renamed place t s) := by
  refine ⟨rfl, rfl, rfl, rfl, rfl, rfl, ?_⟩
  unfold error?
  rw [renamed_state]
  cases s.state with
  | _ => rfl

variable {s s' : Scan} {mode : ScanMode} {bindings bindings' : List Binding}

namespace SameDescent

/-- Scans that changed in the same way, but for the bindings that they hold, have still descended
the same way. -/
theorem keep {t t' : Scan} (h : SameDescent s s') (hbinding : t.binding = s.binding)
    (hcandidates : t.candidates = s.candidates)
    (hsame : t' = { t with binding := s'.binding, candidates := s'.candidates }) :
    SameDescent t t' := by
  subst hsame
  refine ⟨⟨_, _, rfl⟩, ?_, ?_, ?_, ?_⟩
  · rw [hbinding]
    exact h.binding
  · rw [hcandidates]
    exact h.candidates
  · rw [hcandidates]
    exact h.below
  · rw [hbinding]
    exact h.form

theorem fail (h : SameDescent s s') (e : GrammarError) : SameDescent (s.fail e) (s'.fail e) := by
  obtain ⟨binding, candidates, rfl⟩ := h.same
  exact h.keep rfl rfl rfl

/-- Bindings that are alike may be entered side by side. -/
theorem enter (h : SameDescent s s') {b b' : Binding}
    (hb : Binding.find? s.candidates s.token = some b) (halike : b.Alike b') :
    SameDescent (s.enter b) (s'.enter b') := by
  obtain ⟨path, before, hvalid⟩ := h.below
  obtain ⟨-, hform, hbelow⟩ := Binding.defectBelow?_of_mem hvalid (List.mem_of_find?_eq_some hb)
  obtain ⟨binding, candidates, rfl⟩ := h.same
  obtain ⟨form, below, -, -, rfl⟩ := id halike
  refine ⟨⟨_, _, rfl⟩, .some halike, halike.below, ⟨_, _, hbelow⟩, fun b' hb' => ?_⟩
  rwa [← Option.some.inj hb']

end SameDescent

/-- A step of one descent is a step of the other. -/
theorem related_descentStep (h : SameDescent s s') :
    Step.Related SameDescent (descentStep mode s) (descentStep mode s') := by
  obtain ⟨path, before, hvalid⟩ := h.below
  have hfind := Binding.find?_rearranged hvalid h.candidates s.token
  obtain ⟨binding, candidates, rfl⟩ := h.same
  have hpeek : peek? { s with binding, candidates } = s.peek? := rfl
  unfold descentStep
  rw [hpeek]
  dsimp only
  split
  · split
    · exact .next (h.keep rfl rfl rfl)
    · exact .fail h
  · cases s.peek? with
    | none =>
      dsimp only
      split
      · exact .stop h
      · exact .next (h.keep rfl rfl rfl)
    | some c =>
      dsimp only
      split
      · exact .next (h.keep rfl rfl rfl)
      · exact .next (h.keep rfl rfl rfl)
  · obtain ⟨hb, hb'⟩ | ⟨b, b', hb, hb', halike⟩ := eq_none_or_eq_some_of_rel hfind
    · rw [hb, hb']
      exact .stop h
    · rw [hb, hb']
      have henter := h.enter hb halike
      obtain ⟨form, below, -, -, rfl⟩ := halike
      exact .next (henter.keep rfl rfl rfl)
  · cases s.peek? with
    | none => exact .stop (h.keep rfl rfl rfl)
    | some c =>
      dsimp only
      split
      · exact .next (h.keep rfl rfl rfl)
      · exact .next (h.keep rfl rfl rfl)
  · exact .stop h

namespace SameDescent

theorem descend (h : SameDescent s s') : SameDescent (descend mode s) (descend mode s') :=
  run_related SameDescent (fun _ _ => related_descentStep) (fun _ _ e h => h.fail e) h

theorem matched (h : SameDescent s s') : SameDescent (matched mode s) (matched mode s') := by
  have hsome : s'.binding.isSome = s.binding.isSome := by
    obtain ⟨hb, hb'⟩ | ⟨b, b', hb, hb', -⟩ := eq_none_or_eq_some_of_rel h.binding
    · rw [hb, hb']
    · rw [hb, hb']
      rfl
  obtain ⟨binding, candidates, rfl⟩ := h.same
  unfold Scan.matched
  rw [hsome]
  change SameDescent _ (if s.isFailed ∨ s.binding.isSome ∨ mode = .autocomplete ∧ s.state = .command
    then _ else _)
  split
  · exact h
  · exact h.fail _

/-- The matched binding has subcommands in both trees or in neither. -/
theorem requireLeaf (h : SameDescent s s') : SameDescent s.requireLeaf s'.requireLeaf := by
  have hfailed : s'.isFailed = s.isFailed := by
    obtain ⟨binding, candidates, rfl⟩ := h.same
    rfl
  unfold Scan.requireLeaf
  obtain ⟨hb, hb'⟩ | ⟨b, b', hb, hb', halike⟩ := eq_none_or_eq_some_of_rel h.binding
  · rw [hb, hb']
    exact h
  · have hleaf : b'.isLeaf = b.isLeaf := halike.below.isEmpty_eq.symm
    rw [hb, hb']
    dsimp only
    rw [hleaf, hfailed, halike.label]
    split
    · exact h.fail _
    · exact h

/-- What the scans have read so far is the same. -/
theorem sameReading (h : SameDescent s s') : SameReading s s' := by
  obtain ⟨binding, candidates, rfl⟩ := h.same
  exact ⟨rfl, rfl, rfl, rfl, rfl, rfl, rfl⟩

/-- The parameters are read the same way with the forms that are found. -/
theorem parseInline (h : SameDescent s s') :
    SameReading (s.parseInline mode) (s'.parseInline mode) := by
  unfold Scan.parseInline
  obtain ⟨hb, hb'⟩ | ⟨b, b', hb, hb', halike⟩ := eq_none_or_eq_some_of_rel h.binding
  · rw [hb, hb']
    exact h.sameReading
  · rw [hb, hb', Option.bind_some, Option.bind_some]
    obtain ⟨hf, hf'⟩ | ⟨form, form', hf, hf', hform⟩ := eq_none_or_eq_some_of_rel halike.form
    · rw [hf, hf']
      exact h.sameReading
    · rw [hf, hf']
      obtain ⟨place, hplace⟩ := Form.exists_renaming (h.form b hb form hf) hform
      obtain ⟨binding, candidates, rfl⟩ := h.same
      dsimp only
      rw [parseForm_withForm, parseForm_withForm]
      change SameReading _ (if s.isFailed then _ else _)
      split
      · exact ⟨rfl, rfl, rfl, rfl, rfl, rfl, rfl⟩
      · have hread : readForm form' mode (withForm { s with binding, candidates } form').rewind =
            renamed place (withForm { s with binding, candidates } form')
              (readForm form mode (s.withForm form).rewind) :=
          readForm_renamed (s := (s.withForm form).rewind) hplace
        rw [hread]
        exact sameReading_renamed

end SameDescent

/-- The descents from a valid tree and from a rearranged one stay side by side. -/
theorem sameDescent_matchBinding (hvalid : Binding.treeDefect? bindings = none)
    (h : Binding.Rearranged bindings bindings') (command : String) :
    SameDescent ((ofText command).matchBinding bindings mode)
      ((ofText command).matchBinding bindings' mode) := by
  have hnot : ¬ (ofText command).isFailed = true := Bool.false_ne_true
  have hstart : SameDescent { ofText command with candidates := bindings }
      { ofText command with candidates := bindings' } :=
    ⟨⟨_, _, rfl⟩, .none, h, ⟨[], [], hvalid⟩, nofun⟩
  have hnil : SameDescent (ofText command) (ofText command) :=
    ⟨⟨_, _, rfl⟩, .none, .nil, ⟨[], [], Binding.defectBelow?_nil⟩, nofun⟩
  unfold matchBinding
  rw [if_neg hnot, if_neg hnot, ← h.isEmpty_eq]
  split
  · exact hnil.fail .noBindings
  · exact hstart.descend.matched

/-- In a valid tree the order of declaration does not matter.  Whatever order the siblings at any
level and the fields of the forms have, a command leads to the same location and app, the same
values and error, and the same token with its position, and it does so in either mode: behind the
match, behind the parameters that the form of the matched binding has, and also where subcommands
are required. -/
theorem matchBinding_rearranged (hvalid : Binding.treeDefect? bindings = none)
    (h : Binding.Rearranged bindings bindings') (command : String) (mode : ScanMode) :
    let m := (ofText command).matchBinding bindings mode
    let m' := (ofText command).matchBinding bindings' mode
    SameReading m m' ∧ SameReading (m.parseInline mode) (m'.parseInline mode) ∧
      SameReading m.requireLeaf m'.requireLeaf ∧
      SameReading (m.requireLeaf.parseInline mode) (m'.requireLeaf.parseInline mode) := by
  intro m m'
  have hmatch : SameDescent m m' := sameDescent_matchBinding hvalid h command
  exact ⟨hmatch.sameReading, hmatch.parseInline, hmatch.requireLeaf.sameReading,
    hmatch.requireLeaf.parseInline⟩

/-- The commands of a tracker, with a group of two, are declared the other way round, and so are the
fields of one of them. -/
theorem matchBinding_rearranged_jira :
    let summary : Field := { name := "summary", position := 1 }
    let due : Field := { name := "due" }
    let issue : Binding := { label := "issue", form := some { fields := [summary, due] } }
    let link : Binding := { label := "link" }
    let time : Binding := { label := "time" }
    let jira : Binding := { label := "jira", bindings := [issue, link] }
    let issue' : Binding := { issue with form := some { fields := [due, summary] } }
    let jira' : Binding := { jira with bindings := [link, issue'] }
    let bindings := [jira, time]
    let bindings' := [time, jira']
    let m := (ofText "/jira issue Crash --due today").matchBinding bindings .execute
    let m' := (ofText "/jira issue Crash --due today").matchBinding bindings' .execute
    Binding.treeDefect? bindings = none ∧ Binding.Rearranged bindings bindings' ∧
      SameReading (m.requireLeaf.parseInline .execute) (m'.requireLeaf.parseInline .execute) := by
  intro summary due issue link time jira issue' jira' bindings bindings' m m'
  have hlast {path before : List String} {b : Binding}
      (hlabel : Binding.labelDefect? path before b.label = none) (hform : b.form = none)
      (hleaf : b.bindings = []) : Binding.defectBelow? path before [b] = none :=
    Binding.defectBelow?_cons_of_leaf hlabel (by rw [hform]; rfl) hleaf Binding.defectBelow?_nil
  have hbelow : Binding.defectBelow? ["jira"] [] jira.bindings = none :=
    Binding.defectBelow?_cons_of_leaf (by decide) (by decide) rfl (hlast (by decide) rfl rfl)
  have hvalid : Binding.treeDefect? bindings = none :=
    Binding.defectBelow?_cons_eq_none_iff.mpr
      ⟨by decide, by decide, hbelow, hlast (by decide) rfl rfl⟩
  have hissue : issue.Alike issue' :=
    ⟨_, [], .some ⟨[due, summary], .swap due summary [], rfl⟩, .nil, rfl⟩
  have hchildren : Binding.Rearranged jira.bindings jira'.bindings :=
    (Binding.Rearranged.cons_of_alike hissue (.refl [link])).trans (.swap issue' link [])
  have hjira : jira.Alike jira' := ⟨none, [link, issue'], .none, hchildren, rfl⟩
  have hrearranged : Binding.Rearranged bindings bindings' :=
    (Binding.Rearranged.cons_of_alike hjira (.refl [time])).trans (.swap jira' time [])
  exact ⟨hvalid, hrearranged, (matchBinding_rearranged hvalid hrearranged _ .execute).2.2.2⟩

end Scan

end SlashCommand
