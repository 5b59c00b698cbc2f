import SlashCommand.Proofs.Scan.Endings
import SlashCommand.Proofs.Session.Caching
import SlashCommand.Proofs.Session.Requests
import SlashCommand.Proofs.Json.RoundTrip
import SlashCommand.Proofs.Wire.Calls

/-!
# Requests on the wire

A request is encoded and sent.  What the app decodes is the request with each typed value in the
first kind that is written in the same way, so it is the request itself exactly if no value changes
its kind there (`Session.decode_compose`).

The call of a request comes from the tree, from a form in the cache or from a form that the backend
answers (`Session.Calls.of_run_compose`).  If none of these carries a state, all that could be lost
on the wire is in the values.
-/

namespace SlashCommand

open Expansion (CanReturn canReturn_bind eq_of_canReturn_pure)

namespace CallRequest

/-- The request that is decoded from the encoding of a request. -/
def decoded? (r : CallRequest) : Option CallRequest :=
  (Json.parse (Json.compact r.toDatum)).bind ofDatum?

/-- A request without a state is decoded, with its values in the first kind that fits. -/
theorem decoded?_of_state_eq_none {r : CallRequest} (h : r.call.state = none) :
    r.decoded? = some { r with values := r.values.map fun _ => TypedValue.reread } := by
  obtain ⟨hnested, hread⟩ := ofDatum?_toDatum (n := 123) (Call.restored_of_state_eq_none h)
  rw [decoded?, Json.parse_compact hnested, Option.bind_some, hread]

/-- It is the request itself exactly if each value is of the first kind that fits. -/
theorem decoded?_eq_some_self_iff {r : CallRequest} (h : r.call.state = none) :
    r.decoded? = some r ↔ ∀ (name : String) (v : TypedValue),
      r.values[name]? = some v → v.IsFirstKind := by
  have hname (name : String) :
      (r.values.map fun _ => TypedValue.reread)[name]? = r.values[name]?.map TypedValue.reread :=
    Std.ExtTreeMap.getElem?_map
  rw [decoded?_of_state_eq_none h, Option.some.injEq]
  refine ⟨fun heq name v hv => ?_, fun hfirst => ?_⟩
  · have hvalues : (r.values.map fun _ => TypedValue.reread) = r.values :=
      congrArg CallRequest.values heq
    have hsame := hname name
    rw [hvalues, hv] at hsame
    exact TypedValue.reread_eq_iff.mp (Option.some.inj hsame).symm
  · have hvalues : (r.values.map fun _ => TypedValue.reread) = r.values := by
      refine Std.ExtTreeMap.ext_getElem? fun name => ?_
      rw [hname]
      cases hv : r.values[name]? with
      | none => rfl
      | some v => exact congrArg some (TypedValue.reread_eq_iff.mpr (hfirst name v hv))
    rw [hvalues]

end CallRequest

namespace Session

variable {σ : Type} {s : Session} {backend : Backend (StateM σ)} {command : String}
  {cache cache' : FormCache} {state state' : σ} {scan : Scan} {request : CallRequest}
  {P : Call → Prop}

/-- What holds of each call in the tree, in the cache and in the answers of the backend. -/
structure Calls (s : Session) (backend : Backend (StateM σ)) (cache : FormCache)
    (P : Call → Prop) : Prop where
  tree : ∀ p ∈ Binding.places s.bindings, ∀ c ∈ p.binding.call, P c
  inline : ∀ p ∈ Binding.places s.bindings, ∀ f ∈ p.binding.form, ∀ c ∈ f.call, P c
  cached : ∀ cell f, cache.form? cell = some f → ∀ c ∈ f.call, P c
  answered : ∀ request f, CanReturn (backend.performCall request .form) (.ok (.form f)) →
    ∀ c ∈ f.call, P c

/-- Only the answer that is a form gives one. -/
theorem eq_form_of_formOfReply {reply : Except BackendError CallResponse} {form : Form}
    (h : formOfReply reply = .ok form) : reply = .ok (.form form) := by
  unfold formOfReply at h
  split at h
  · rename_i response
    cases response with
    | form f => rw [Except.ok.inj h]
    | _ => cases h
  · cases h

/-- What a fetch answers and leaves behind, from a backend that has a state. -/
theorem run_fetch_state (backend : Backend (StateM σ)) (key : FormKey) (binding : Binding)
    (context : CallContext) (cache : FormCache) (state : σ) :
    ((FormCache.fetch backend key binding context).run cache).run state =
      match cache.form? (cache.attach key).1 with
      | some form => ((.ok form, (cache.attach key).2), state)
      | none =>
        let out := (fetchForm backend binding context).run state
        ((out.1, (cache.attach key).2.settle (cache.attach key).1 out.1), out.2) := by
  rw [← FormCache.form?_attach cache key]
  unfold FormCache.fetch
  cases h : (cache.attach key).2.form? (cache.attach key).1 with
  | some form =>
    simp only [bind_pure_comp, StateT.run_bind, StateT.run_get, StateT.run_set, pure_bind, h,
      StateT.run_pure]
    rfl
  | none =>
    simp only [bind_pure_comp, StateT.run_bind, StateT.run_get, StateT.run_set, pure_bind, h,
      StateT.run_lift, StateT.run_map, StateT.run_modify, map_pure, Functor.map_map]
    rfl

/-- A form that was fetched is in the cache, or in an answer of the backend. -/
theorem cases_of_run_fetch {key : FormKey} {binding : Binding} {context : CallContext} {form : Form}
    (h : ((FormCache.fetch backend key binding context).run cache).run state =
      ((.ok form, cache'), state')) :
    (∃ cell, cache.form? cell = some form) ∨
      ∃ request, CanReturn (backend.performCall request .form) (.ok (.form form)) := by
  rw [run_fetch_state] at h
  split at h
  · rename_i held hheld
    cases h
    exact .inl ⟨_, hheld⟩
  · have hform : CanReturn (fetchForm backend binding context) (.ok form) :=
      ⟨state, _, Prod.ext (congrArg (·.1.1) h) rfl⟩
    unfold fetchForm at hform
    split at hform
    · cases eq_of_canReturn_pure hform
    · obtain ⟨reply, hreply, hpure⟩ := canReturn_bind hform
      rw [eq_form_of_formOfReply (eq_of_canReturn_pure hpure).symm] at hreply
      exact .inr ⟨_, hreply⟩

/-- An inline form is that of the binding that was found. -/
theorem form_of_formSource {form : Form} {b : Binding} (h : s.formSource scan = .inline form)
    (hb : scan.binding = some b) : b.form = some form := by
  unfold formSource at h
  split at h
  · rename_i b' _ hbinding
    cases hbinding.symm.trans hb
    split at h
    · cases h
      assumption
    · split at h
      · cases h
      · cases h
  · cases h

/-- The property holds of the calls that a scanned command has. -/
theorem Calls.of_run_parse {mode : ScanMode} (h : s.Calls backend cache P)
    (hrun : ((s.parse backend command mode).run cache).run state = ((.ok scan, cache'), state')) :
    ∀ b ∈ scan.binding, (∀ c ∈ b.call, P c) ∧ ∀ f ∈ scan.form, ∀ c ∈ f.call, P c := by
  have hplaced := s.placed_matchCommand command mode
  have hread {form : Form} (hform : ∀ b, (s.matchCommand command mode).binding = some b →
      ∀ c ∈ form.call, P c) :
      let read := ((s.matchCommand command mode).withForm form).parseForm mode
      ∀ b ∈ read.binding, (∀ c ∈ b.call, P c) ∧ ∀ f ∈ read.form, ∀ c ∈ f.call, P c := by
    intro read b hb
    have hsame := Scan.sameForm_parseForm ((s.matchCommand command mode).withForm form) mode
    have hb' : (s.matchCommand command mode).binding = some b := hsame.binding.symm.trans hb
    refine ⟨h.tree _ (hplaced.here b hb'), fun f hf => ?_⟩
    obtain rfl : form = f := Option.some.inj (hsame.form.symm.trans hf)
    exact hform b hb'
  cases parsedBy_of_run_state hrun with
  | formless =>
    intro b hb
    refine ⟨h.tree _ (hplaced.here b hb), fun f hf => ?_⟩
    rw [s.form_matchCommand] at hf
    cases hf
  | inline hsource =>
    exact hread fun b hb => h.inline _ (hplaced.here b hb) _ (form_of_formSource hsource hb)
  | fetched _ hfetch =>
    refine hread fun b _ => ?_
    rcases cases_of_run_fetch hfetch with ⟨cell, hcell⟩ | ⟨request, hanswer⟩
    · exact h.cached cell _ hcell
    · exact h.answered request _ hanswer

/-- The property holds of the call of a request. -/
theorem Calls.of_run_compose (h : s.Calls backend cache P)
    (hrun : ((s.compose backend command).run cache).run state =
      ((.ok request, cache'), state')) : P request.call := by
  obtain ⟨scan, cache₁, state₁, hparse, hfinish⟩ := exists_scan_of_run_compose hrun
  obtain ⟨b, hb, hcall⟩ := Option.bind_eq_some_iff.mp (comesFrom_of_finish hfinish).call
  obtain ⟨htree, hform⟩ := h.of_run_parse hparse b hb
  rcases Option.or_eq_some_iff.mp hcall with hform' | ⟨-, hbinding⟩
  · obtain ⟨f, hf, hcall'⟩ := Option.bind_eq_some_iff.mp hform'
    exact hform f hf _ hcall'
  · exact htree _ hbinding

/-! ## A list that is taken for an option -/

theorem eq_of_mem_places_singleton {p : Place} {b : Binding} (hleaf : b.bindings = [])
    (h : p ∈ Binding.places [b]) : p.binding = b := by
  rw [Binding.places, Binding.placesBelow_cons, hleaf] at h
  rcases List.mem_cons.mp h with rfl | h
  · rfl
  · simp [Binding.placesBelow] at h

theorem calls_tagSession :
    tagSession.Calls (.offline (StateM Unit)) .empty (·.state = none) where
  tree p hp c hc := by
    rw [eq_of_mem_places_singleton rfl hp] at hc
    cases hc
    rfl
  inline p hp f hf c hc := by
    rw [eq_of_mem_places_singleton rfl hp] at hf
    cases hf
    cases hc
  cached cell f h := by cases h
  answered request f h := by cases eq_of_canReturn_pure h

theorem treeDefect?_tagSession : Binding.treeDefect? tagSession.bindings = none :=
  Binding.defectBelow?_cons_eq_none_iff.mpr
    ⟨by decide, by decide, Binding.defectBelow?_nil, Binding.defectBelow?_nil⟩

/-- The request for the command of the session with the given labels. -/
def tagRequest (command : String) (labels : List String) : CallRequest where
  call := { path := "/tag" }
  context := { location := "/tag" }
  values := (∅ : NameMap TypedValue).insert "labels" (.texts labels)
  rawCommand := some command

theorem matchCommand_tag_pair : tagSession.matchCommand "/tag --labels [a, b]" .execute =
    tagScan "/tag --labels [a, b]" .endCommand 13 "--labels" 5 :=
  matchCommand_of_runWithin 30 (tagScan "/tag --labels [a, b]" .endCommand 13 "--labels" 5)
    (s := tagSession) (List.cons_ne_nil _ _) rfl

theorem parse_tag_pair :
    tagSession.parse (.offline (StateM Unit)) "/tag --labels [a, b]" .execute =
      pure (.ok (tagRead "/tag --labels [a, b]" (.listEnd 0)
        ((∅ : Values).insert "labels" (.list ["a", "b"])))) :=
  parse_of_inline matchCommand_tag_pair rfl (Scan.parseForm_of_runWithin 40 _ rfl rfl)

theorem run_compose_tag_pair :
    ((tagSession.compose (.offline (StateM Unit)) "/tag --labels [a, b]").run .empty).run () =
      ((.ok (tagRequest "/tag --labels [a, b]" ["a", "b"]), .empty), ()) := by
  rw [compose_of_parse parse_tag_pair]
  rfl

/-- A list of two labels is decoded as an option, with one for its label and one for its value. -/
theorem decode_tag_pair :
    Binding.treeDefect? tagSession.bindings = none ∧
    tagSession.Calls (.offline (StateM Unit)) .empty (·.state = none) ∧
    ∃ request decoded,
      ((tagSession.compose (.offline (StateM Unit)) "/tag --labels [a, b]").run .empty).run () =
        ((.ok request, .empty), ()) ∧
      request.decoded? = some decoded ∧
      request.values["labels"]? = some (.texts ["a", "b"]) ∧
      decoded.values["labels"]? = some (.option ⟨"a", "b", none⟩) :=
  ⟨treeDefect?_tagSession, calls_tagSession, _, _, run_compose_tag_pair,
    CallRequest.decoded?_of_state_eq_none rfl, rfl, rfl⟩

/-! ## What the app decodes -/

/-- **A request on the wire.**  If no call of the tree, the cache and the answers of the backend
carries a state, then what is decoded of a request differs at most in the kinds of its values: a
list of two or three texts becomes an option, and an empty list of options an empty list of texts.
So exactly the requests without such lists are decoded as they are. -/
theorem decode_compose (hcalls : s.Calls backend cache (·.state = none))
    (h : ((s.compose backend command).run cache).run state = ((.ok request, cache'), state')) :
    request.decoded? = some { request with values := request.values.map fun _ => .reread } ∧
      (request.decoded? = some request ↔ ∀ (name : String) (v : TypedValue),
        request.values[name]? = some v → v.IsFirstKind) :=
  have hstate := hcalls.of_run_compose h
  ⟨CallRequest.decoded?_of_state_eq_none hstate, CallRequest.decoded?_eq_some_self_iff hstate⟩

/-- A form with a field for a text, a truth value, a list of texts and an option. -/
def taskForm : Form where
  call := some { path := "/task" }
  fields := [{ name := "days", type := .text, multiselect := true },
    { name := "title", type := .text }, { name := "urgent", type := .bool },
    { name := "when", type := .staticSelect, options := [⟨"Now", "now", none⟩] }]

def taskSession : Session where
  bindings := [{ label := "task", call := some { path := "/task" }, form := some taskForm }]

def taskCommand : String := "/task --title hi --urgent true --days [a, b, c, d] --when now"

/-- The values of the command, in the order in which they are written. -/
def taskValues : Values :=
  ((((∅ : Values).insert "title" (.scalar "hi")).insert "urgent" (.scalar "true")).insert "days"
    (.list ["a", "b", "c", "d"])).insert "when" (.scalar "now")

/-- The scan of the command in front of its parameters. -/
def taskScan : Scan where
  state := .endCommand
  text := taskCommand.toList
  cursor := 13
  token := "--title"
  tokenStart := 6
  location := "/task"
  binding := taskSession.bindings.head?

/-- The scan of the command when its parameters are read. -/
def taskRead : Scan :=
  { taskScan with
    state := .value 3 .endBare
    cursor := taskCommand.length
    token := ""
    tokenStart := taskCommand.length
    form := some taskForm
    values := taskValues }

theorem matchCommand_task : taskSession.matchCommand taskCommand .execute = taskScan :=
  matchCommand_of_runWithin 30 taskScan (s := taskSession) (List.cons_ne_nil _ _) rfl

theorem parse_task :
    taskSession.parse (.offline (StateM Unit)) taskCommand .execute = pure (.ok taskRead) :=
  parse_of_inline matchCommand_task rfl (Scan.parseForm_of_runWithin 200 _ rfl rfl)

/-- The request for the command. -/
def taskRequest : CallRequest where
  call := { path := "/task" }
  context := { location := "/task" }
  values := ((((∅ : NameMap TypedValue).insert "days" (.texts ["a", "b", "c", "d"])).insert "title"
    (.text "hi")).insert "urgent" (.bool true)).insert "when" (.option ⟨"Now", "now", none⟩)
  rawCommand := some taskCommand

theorem run_compose_task :
    ((taskSession.compose (.offline (StateM Unit)) taskCommand).run .empty).run () =
      ((.ok taskRequest, .empty), ()) := by
  rw [compose_of_parse parse_task]
  rfl

theorem calls_taskSession :
    taskSession.Calls (.offline (StateM Unit)) .empty (·.state = none) where
  tree p hp c hc := by
    rw [eq_of_mem_places_singleton rfl hp] at hc
    cases hc
    rfl
  inline p hp f hf c hc := by
    rw [eq_of_mem_places_singleton rfl hp] at hf
    cases hf
    cases hc
    rfl
  cached cell f h := by cases h
  answered request f h := by cases eq_of_canReturn_pure h

/-- A request with a text, a truth value, an option and a list of four texts is decoded as it is. -/
theorem decode_compose_task : taskRequest.decoded? = some taskRequest := by
  refine (decode_compose calls_taskSession run_compose_task).2.mpr fun name v hv => ?_
  simp only [taskRequest, Std.ExtTreeMap.getElem?_insert, Std.ExtTreeMap.getElem?_empty] at hv
  split_ifs at hv <;> cases hv <;> decide

end Session

end SlashCommand
