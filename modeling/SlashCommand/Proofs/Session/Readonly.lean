import SlashCommand.Proofs.Expansion.Fields
import SlashCommand.Proofs.Form.Missing
import SlashCommand.Proofs.Session.Caching
import SlashCommand.Proofs.Session.Encoding
import SlashCommand.Proofs.Session.Leaves

/-!
# Readonly fields

A readonly field is for the form to set and not for the one who types the command.  The scan takes a
value for it nevertheless, by flag, by place or as the rest of the line, and what protects the field
is that its default is put in the place of whatever was typed.  So two commands at one leaf have the
same in a readonly field that has a default (`Session.compose_readonly`).

A readonly field without a default is not protected at all: what was typed goes into the request
(`Session.compose_owner`).
-/

namespace SlashCommand

open Expansion (own?)

/-- The scan has come to the place. -/
structure Scan.IsAt (scan : Scan) (p : Place) : Prop where
  binding : scan.binding = some p.binding
  location : scan.location = p.location
  appId : scan.appId = p.appId

/-- A scan that has to be at a leaf is at one, or fails. -/
theorem Scan.isLeaf_of_requireLeaf {scan : Scan} {b : Binding}
    (hnotFailed : scan.requireLeaf.isFailed = false) (hb : scan.requireLeaf.binding = some b) :
    b.isLeaf = true := by
  unfold requireLeaf at hnotFailed hb
  split at hb
  · rename_i b' hb'
    rw [hb'] at hnotFailed
    split at hb
    · rename_i hbranch
      simp only [hbranch, if_true] at hnotFailed
      cases hnotFailed
    · rename_i hbranch
      obtain rfl : b' = b := Option.some.inj (hb'.symm.trans hb)
      simp only [hbranch, Bool.false_eq_true, if_false] at hnotFailed
      simpa [hnotFailed] using hbranch
  · rename_i hnone
    cases hnone.symm.trans hb

namespace Session

variable {s s' : Session} {backend : Backend Id} {cache cache' kept kept' : FormCache}
  {command first second : String} {scan scan' : Scan} {request request' : CallRequest} {p : Place}
  {form form' held : Form} {f : Field} {key : FormKey}

/-! ## One command -/

/-- A scan that comes to a request has not failed, has a call, and expands its values. -/
theorem of_run_finish (h : (s.finish backend scan).run = .ok request) :
    scan.error? = none ∧ (scan.binding.bind (·.submitCall? scan.form)).isSome = true ∧
      ∀ form, scan.form = some form →
        (Expansion.expandValues backend s.context.teamId form (form.fillDefaults scan.values)).run =
          .ok request.values := by
  unfold finish at h
  split at h
  · cases h
  · rename_i scan₁ hresult
    obtain ⟨hnotFailed, rfl⟩ := Scan.result_eq_ok_iff.mp hresult
    split at h
    · cases h
    · rename_i call hcall
      refine ⟨hnotFailed, by rw [hcall]; rfl, fun form hform => ?_⟩
      simp only [hform, Id.run_bind] at h
      split at h
      · cases h
      · rename_i typed hexpand
        split at h
        · rw [hexpand, ← Except.ok.inj h]
        · cases h

/-- A command that is composed is scanned, and the scan comes to the request. -/
theorem exists_scan_of_compose
    (h : ((s.compose backend command).run cache).run = (.ok request, kept)) :
    ∃ scan, ((s.parse backend command .execute).run cache).run = (.ok scan, kept) ∧
      (s.finish backend scan).run = .ok request := by
  rw [run_compose] at h
  rcases hout : ((s.parse backend command .execute).run cache).run with ⟨result, kept₁⟩
  rw [hout] at h
  cases result with
  | error e => cases h
  | ok scan =>
    obtain ⟨hfinish, rfl⟩ := Prod.mk.inj h
    exact ⟨scan, rfl, hfinish⟩

/-- A form that is fetched is for a leaf without one of its own, and is kept under its key. -/
theorem formKey_of_formSource {binding : Binding} {context : CallContext} (hp : scan.IsAt p)
    (h : s.formSource scan = .remote binding key context) :
    p.binding.form = none ∧ key = s.formKey p := by
  obtain ⟨hbinding, hform, -, rfl, -⟩ := of_formSource_remote h
  obtain rfl : p.binding = binding := Option.some.inj (hp.binding.symm.trans hbinding)
  exact ⟨hform, congrArg s.context.formKey hp.location⟩

/-- The form of a leaf without one of its own is under its key in the cache. -/
theorem exists_form_of_compose (hcache : cache.WellFormed)
    (hparse : ((s.parse backend command .execute).run cache).run = (.ok scan, kept))
    (hfinish : (s.finish backend scan).run = .ok request)
    (hp : (s.matchCommand command .execute).IsAt p) :
    ∃ form, scan.form = some form ∧
      (p.binding.form = some form ∨
        p.binding.form = none ∧ kept.get? (s.formKey p) = some form ∧
          ∀ held, cache.get? (s.formKey p) = some held → form = held) := by
  obtain ⟨hnotFailed, hcall, -⟩ := of_run_finish hfinish
  cases parsedBy_of_run hparse with
  | formless hsource =>
    -- a leaf with a call has a form, and what is no leaf has failed
    rw [hp.binding, s.form_matchCommand] at hcall
    have ha := isFailed_of_error? hnotFailed
    have hleaf := Scan.isLeaf_of_requireLeaf ha hp.binding
    exact absurd hsource (formSource_ne_none ha hp.binding hleaf hcall)
  | @inline form hsource =>
    exact ⟨form, (Scan.sameForm_parseForm _ .execute).form,
      .inl (form_of_formSource hsource hp.binding)⟩
  | @fetched form _ _ _ hsource hfetch =>
    obtain ⟨hnone, rfl⟩ := formKey_of_formSource hp hsource
    refine ⟨form, (Scan.sameForm_parseForm _ .execute).form, .inr ⟨hnone, ?_, ?_⟩⟩
    · exact FormCache.get?_self_of_run_fetch hcache hfetch
    · intro held hheld
      rw [FormCache.run_fetch, hheld] at hfetch
      cases hfetch
      rfl

/-! ## From one command to the next -/

/-- A scan of a command keeps the forms that are in the cache. -/
theorem kept_run_parse (s : Session) (backend : Backend Id) (hcache : cache.WellFormed)
    (command : String) (mode : ScanMode) :
    let kept := ((s.parse backend command mode).run cache).run.2
    kept.WellFormed ∧ ∀ key form, cache.get? key = some form → kept.get? key = some form := by
  rcases s.run_parse_cases backend command mode with ⟨result, hrun⟩ | ⟨p, -, -, toScan, hrun⟩
  · rw [hrun]
    exact ⟨hcache, fun _ _ => id⟩
  · rw [hrun]
    exact ⟨hcache.run_fetch, fun _ _ => FormCache.get?_run_fetch_of_some hcache⟩

/-- What the steps of a session leave as it was: the team, and the forms in the cache. -/
structure Keeps (p q : Session × FormCache) : Prop where
  teamId : q.1.context.teamId = p.1.context.teamId
  wellFormed : q.2.WellFormed
  get? : ∀ key form, p.2.get? key = some form → q.2.get? key = some form

theorem keeps_perform (backend : Backend Id) {q : Session × FormCache} (hcache : q.2.WellFormed)
    (step : SessionStep) : Keeps q (perform backend q step) := by
  cases step with
  | compose command =>
    rw [perform, run_compose]
    obtain ⟨hwell, hget⟩ := kept_run_parse q.1 backend hcache command .execute
    exact ⟨rfl, hwell, hget⟩
  | suggest text =>
    rw [perform, run_suggest]
    obtain ⟨hwell, hget⟩ := kept_run_parse q.1 backend hcache text .autocomplete
    exact ⟨rfl, hwell, hget⟩
  | setChannel channelId rootId => exact ⟨rfl, hcache, fun _ _ => id⟩

theorem keeps_foldl_perform (backend : Backend Id) {q : Session × FormCache}
    (hcache : q.2.WellFormed) (steps : List SessionStep) :
    Keeps q (steps.foldl (perform backend) q) := by
  induction steps generalizing q with
  | nil => exact ⟨rfl, hcache, fun _ _ => id⟩
  | cons step steps ih =>
    have hstep := keeps_perform backend hcache step
    have hrest := ih hstep.wellFormed
    exact ⟨hrest.teamId.trans hstep.teamId, hrest.wellFormed,
      fun key form h => hrest.get? key form (hstep.get? key form h)⟩

/-! ## Two commands -/

/-- In a request each field has what its completed value comes to. -/
theorem own?_of_run_finish (hfinish : (s.finish backend scan).run = .ok request)
    (hform : scan.form = some form) (hdefect : form.defect? = none) (hf : f ∈ form.fields) :
    own? backend s.context.teamId (form.fillDefaults scan.values) f =
      request.values[f.name]?.map .ok := by
  obtain ⟨-, -, hexpand⟩ := of_run_finish hfinish
  exact Expansion.own?_of_run_expandValues (Form.nodup_names hdefect) hf (hexpand form hform)

/-- Two scans with one form come to requests that have the same in each readonly field with a
default, and in one without a default if what was typed comes to the same. -/
theorem readonly_of_run_finish (hteam : s'.context.teamId = s.context.teamId)
    (hfinish : (s.finish backend scan).run = .ok request)
    (hfinish' : (s'.finish backend scan').run = .ok request')
    (hform : scan.form = some form) (hform' : scan'.form = some form)
    (hdefect : form.defect? = none) (hf : f ∈ form.fields) (hreadonly : f.readonly = true) :
    (f.defaultValue.isSome = true →
      ∃ typed, request.values[f.name]? = some typed ∧ request'.values[f.name]? = some typed) ∧
    (f.defaultValue = none →
      (request.values[f.name]? = request'.values[f.name]? ↔
        own? backend s.context.teamId scan.values f =
          own? backend s.context.teamId scan'.values f)) := by
  have hown := own?_of_run_finish hfinish hform hdefect hf
  have hown' := own?_of_run_finish hfinish' hform' hdefect hf
  rw [hteam] at hown'
  have hcompleted (values : Values) := Form.getElem?_fillDefaults hdefect hf values
  refine ⟨fun hdefault => ?_, fun hnone => ?_⟩
  · obtain ⟨d, hd⟩ := Option.isSome_iff_exists.mp hdefault
    have hfilled (values : Values) :
        (form.fillDefaults values)[f.name]? = some (d.asList f.multiselect) :=
      (hcompleted values).trans (Field.completed_of_used hd (.inl hreadonly))
    have hsame := (hfilled scan'.values).trans (hfilled scan.values).symm
    rw [Expansion.own?_congr hsame, hown] at hown'
    cases htyped : request.values[f.name]? with
    | none =>
      rw [own?, hfilled, htyped] at hown
      cases hown
    | some typed =>
      rw [htyped] at hown'
      obtain ⟨typed', htyped', heq⟩ := Option.map_eq_some_iff.mp hown'.symm
      rw [Except.ok.inj heq] at htyped'
      exact ⟨typed, rfl, htyped'⟩
  · have hkept (values : Values) : (form.fillDefaults values)[f.name]? = values[f.name]? := by
      rw [hcompleted, Field.completed, hnone]
    rw [← Expansion.own?_congr (hkept scan.values), ← Expansion.own?_congr (hkept scan'.values),
      hown, hown']
    exact (Option.map_injective fun _ _ => Except.ok.inj).eq_iff.symm

/-- **Readonly fields ignore the command.**  Two commands in the course of a session come to
requests at one leaf.  If its form is written there, or if the session is still in the place where
it was fetched, both have read one form.  And if they have, and the form has no defect, then both
requests have the same in each readonly field that has a default, whatever was typed for it; in a
readonly field without one they have the same exactly if what was typed comes to the same. -/
theorem compose_readonly (hcache : cache.WellFormed) (between : List SessionStep)
    (hfirst : ((s.compose backend first).run cache).run = (.ok request, kept))
    (hbetween : between.foldl (perform backend) (s, kept) = (s', cache'))
    (hsecond : ((s'.compose backend second).run cache').run = (.ok request', kept'))
    (hp : (s.matchCommand first .execute).IsAt p)
    (hp' : (s'.matchCommand second .execute).IsAt p) :
    ∃ scan scan' form form',
      ((s.parse backend first .execute).run cache).run = (.ok scan, kept) ∧
      ((s'.parse backend second .execute).run cache').run = (.ok scan', kept') ∧
      scan.form = some form ∧ scan'.form = some form' ∧
      (p.binding.form.isSome = true ∨ s'.formKey p = s.formKey p → form' = form) ∧
      (form' = form → form.defect? = none → ∀ f ∈ form.fields, f.readonly = true →
        (f.defaultValue.isSome = true →
          ∃ typed, request.values[f.name]? = some typed ∧
            request'.values[f.name]? = some typed) ∧
        (f.defaultValue = none →
          (request.values[f.name]? = request'.values[f.name]? ↔
            own? backend s.context.teamId scan.values f =
              own? backend s.context.teamId scan'.values f))) := by
  obtain ⟨scan, hparse, hfinish⟩ := exists_scan_of_compose hfirst
  obtain ⟨scan', hparse', hfinish'⟩ := exists_scan_of_compose hsecond
  have hkept : kept.WellFormed := by
    have hrun := (kept_run_parse s backend hcache first .execute).1
    rwa [hparse] at hrun
  have hreached := keeps_foldl_perform backend (q := (s, kept)) hkept between
  rw [hbetween] at hreached
  obtain ⟨form, hform, hsource⟩ := exists_form_of_compose hcache hparse hfinish hp
  obtain ⟨form', hform', hsource'⟩ :=
    exists_form_of_compose hreached.wellFormed hparse' hfinish' hp'
  refine ⟨scan, scan', form, form', hparse, hparse', hform, hform', fun hplace => ?_, ?_⟩
  · rcases hsource with hinline | ⟨hnone, hget, -⟩
    · rcases hsource' with hinline' | ⟨hnone', -⟩
      · exact Option.some.inj (hinline'.symm.trans hinline)
      · cases hnone'.symm.trans hinline
    · rcases hsource' with hinline' | ⟨-, -, hheld⟩
      · cases hnone.symm.trans hinline'
      · have hkey : s'.formKey p = s.formKey p := by
          refine hplace.resolve_left fun hsome => ?_
          rw [hnone] at hsome
          cases hsome
        -- the second command finds what the first one has left under the key
        exact hheld form (hkey ▸ hreached.get? _ form hget)
  · rintro rfl hdefect f hf hreadonly
    exact readonly_of_run_finish hreached.teamId hfinish hfinish' hform hform' hdefect hf hreadonly

/-! ## A readonly field with and without a default -/

/-- A readonly field, with a default or without one. -/
def ownerField (hasDefault : Bool) : Field where
  name := "owner"
  readonly := true
  defaultValue := if hasDefault then some (.scalar "nobody") else none

/-- The leaf of the session with this field. -/
def ownerPlace (hasDefault : Bool) : Place where
  appId := ""
  location := "/remind"
  binding := { label := "remind", form := some (remindForm (ownerField hasDefault)) }

theorem matchCommand_owner (hasDefault : Bool) :
    let s := remindSession (ownerField hasDefault)
    s.matchCommand "/remind --owner me " .execute =
        remindScan (ownerField hasDefault) "/remind --owner me " "--owner" ∧
      s.matchCommand "/remind --owner you " .execute =
        remindScan (ownerField hasDefault) "/remind --owner you " "--owner" := by
  cases hasDefault with
  | false => exact ⟨matchCommand_remind rfl, matchCommand_remind rfl⟩
  | true => exact ⟨matchCommand_remind rfl, matchCommand_remind rfl⟩

theorem parse_owner (hasDefault : Bool) :
    let s := remindSession (ownerField hasDefault)
    s.parse (.offline Id) "/remind --owner me " .execute =
        pure (.ok (remindRead (ownerField hasDefault) "/remind --owner me " "me")) ∧
      s.parse (.offline Id) "/remind --owner you " .execute =
        pure (.ok (remindRead (ownerField hasDefault) "/remind --owner you " "you")) := by
  obtain ⟨hme, hyou⟩ := matchCommand_owner hasDefault
  cases hasDefault with
  | false => exact ⟨parse_remind "--owner" hme rfl, parse_remind "--owner" hyou rfl⟩
  | true => exact ⟨parse_remind "--owner" hme rfl, parse_remind "--owner" hyou rfl⟩

theorem isAt_owner (hasDefault : Bool) :
    let s := remindSession (ownerField hasDefault)
    (s.matchCommand "/remind --owner me " .execute).IsAt (ownerPlace hasDefault) ∧
      (s.matchCommand "/remind --owner you " .execute).IsAt (ownerPlace hasDefault) := by
  intro s
  obtain ⟨hme, hyou⟩ := matchCommand_owner hasDefault
  rw [hme, hyou]
  exact ⟨⟨rfl, rfl, rfl⟩, ⟨rfl, rfl, rfl⟩⟩

/-- Without a default, what is typed for the field goes into the request. -/
theorem compose_owner :
    let s := remindSession (ownerField false)
    Binding.treeDefect? s.bindings = none ∧ (ownerField false).readonly = true ∧
    (s.matchCommand "/remind --owner me " .execute).IsAt (ownerPlace false) ∧
    (s.matchCommand "/remind --owner you " .execute).IsAt (ownerPlace false) ∧
    ∃ request request',
      ((s.compose (.offline Id) "/remind --owner me ").run .empty).run = (.ok request, .empty) ∧
      ((s.compose (.offline Id) "/remind --owner you ").run .empty).run = (.ok request', .empty) ∧
      request.values["owner"]? = some (.text "me") ∧
      request'.values["owner"]? = some (.text "you") := by
  intro s
  obtain ⟨hme, hyou⟩ := parse_owner false
  obtain ⟨hp, hp'⟩ := isAt_owner false
  refine ⟨treeDefect?_remindSession (by decide), rfl, hp, hp', ?_⟩
  rw [compose_of_parse hme, compose_of_parse hyou]
  exact ⟨_, _, rfl, rfl, rfl, rfl⟩

/-- With a default, both requests have the same. -/
theorem compose_readonly_owner :
    let s := remindSession (ownerField true)
    ∃ request request',
      ((s.compose (.offline Id) "/remind --owner me ").run .empty).run = (.ok request, .empty) ∧
      ((s.compose (.offline Id) "/remind --owner you ").run .empty).run = (.ok request', .empty) ∧
      ∃ typed, request.values["owner"]? = some typed ∧ request'.values["owner"]? = some typed := by
  intro s
  obtain ⟨hme, hyou⟩ := parse_owner true
  obtain ⟨hp, hp'⟩ := isAt_owner true
  obtain ⟨request, request', hfirst, hsecond⟩ : ∃ request request',
      ((s.compose (.offline Id) "/remind --owner me ").run .empty).run = (.ok request, .empty) ∧
      ((s.compose (.offline Id) "/remind --owner you ").run .empty).run =
        (.ok request', .empty) := by
    rw [compose_of_parse hme, compose_of_parse hyou]
    exact ⟨_, _, rfl, rfl⟩
  obtain ⟨scan, scan', form, form', hparse, -, hform, -, hsame, hagree⟩ :=
    compose_readonly .empty [] hfirst rfl hsecond hp hp'
  rw [hme] at hparse
  cases hparse
  cases hform
  exact ⟨request, request', hfirst, hsecond,
    (hagree (hsame (.inl rfl)) (by decide) _ List.mem_cons_self rfl).1 rfl⟩

end Session

end SlashCommand
