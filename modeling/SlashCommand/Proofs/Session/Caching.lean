import SlashCommand.Proofs.Binding.Validation
import SlashCommand.Proofs.FormCache.Fetching
import SlashCommand.Proofs.Scan.Places
import SlashCommand.Proofs.Session.Runs

/-!
# The form cache in a session

Forms are kept from one command to the next, so a command may get a form that was fetched for
another one.  This is no difference as long as a form call is known by the key that its answer is
kept under.

The key has the channel, the thread and the location.  The call also has the app, the call of the
leaf, and the thread as it is given, so a key stands for one call only if

* leaves that share a location have the same app and call (`Binding.OwnLocations`), and
* no thread is the empty text, which the key does not tell from none.

Neither is checked when a tree is validated, and `compose_after_open` is a session in a tree without
a defect where one leaf gets the form of another.  Under the two conditions, `compose_performAll`
says that no command can tell a session from a new one: what the cache holds for a leaf is what the
app would answer.
-/

namespace SlashCommand

/-! ## Places and keys -/

namespace Binding

/-- Leaves whose forms are fetched and that share a location have the same app and call. -/
def OwnLocations (bindings : List Binding) : Prop :=
  ∀ p ∈ places bindings, ∀ q ∈ places bindings, p.isFetched = true → q.isFetched = true →
    p.location = q.location → p.appId = q.appId ∧ p.binding.call = q.binding.call

end Binding

namespace Session

variable {s : Session} {backend : Backend Id} {c : FormCache} {command : String} {mode : ScanMode}
  {binding : Binding} {key : FormKey} {context : CallContext}

/-- The key of the form of a place. -/
def formKey (s : Session) (p : Place) : FormKey := s.context.formKey p.location

/-- The context of the form call of a place. -/
def callContext (s : Session) (p : Place) : CallContext := s.context.callContext p.appId p.location

/-- What the app answers when it is asked for the form of a place. -/
def ownForm (s : Session) (backend : Backend Id) (p : Place) : Except FormError Form :=
  (fetchForm backend p.binding (s.callContext p)).run

/-- If the session is in a thread, the thread has a name. -/
def NamesThread (s : Session) : Prop := s.context.rootId ≠ some ""

/-- A command is matched to one of the places of the tree. -/
theorem placed_matchCommand (s : Session) (command : String) (mode : ScanMode) :
    Scan.Placed (Binding.places s.bindings) (s.matchCommand command mode) := by
  have hmatch := Scan.placed_matchBinding command s.bindings mode
  rcases s.matchCommand_cases command mode with heq | ⟨e, heq⟩
  · rw [heq]
    exact hmatch
  · rw [heq]
    exact hmatch.fail

/-- A form that a command needs from its app is that of a place of the tree. -/
theorem place_of_formSource
    (h : s.formSource (s.matchCommand command mode) = .remote binding key context) :
    ∃ p ∈ Binding.places s.bindings, p.isFetched = true ∧ binding = p.binding ∧
      key = s.formKey p ∧ context = s.callContext p := by
  obtain ⟨hbinding, hform, hcall, rfl, rfl⟩ := of_formSource_remote h
  refine ⟨_, (s.placed_matchCommand command mode).here _ hbinding, ?_, rfl, rfl, rfl⟩
  rw [Place.isFetched, Bool.and_assoc, hcall, hform]
  rfl

/-- Threads that have names are told apart by the key. -/
theorem rootId_eq_of_getD {r r' : Option String} (hr : r ≠ some "") (hr' : r' ≠ some "")
    (h : r.getD "" = r'.getD "") : r = r' := by
  cases r with
  | none =>
    cases r' with
    | none => rfl
    | some t => exact absurd (congrArg some h.symm) hr'
  | some t =>
    cases r' with
    | none => exact absurd (congrArg some h) hr
    | some t' => exact congrArg some h

/-- In one session, whatever channels and threads it moves through, a key that two places share
stands for one call. -/
theorem ownForm_eq_of_formKey_eq {p q : Place} (hplaces : Binding.OwnLocations s.bindings)
    (hp : p ∈ Binding.places s.bindings) (hq : q ∈ Binding.places s.bindings)
    (hpf : p.isFetched = true) (hqf : q.isFetched = true) (hs : s.NamesThread)
    {channelId : String} {rootId : Option String} (hroot : rootId ≠ some "")
    (hkey : s.formKey p = (s.setChannel channelId rootId).formKey q) :
    s.ownForm backend p = (s.setChannel channelId rootId).ownForm backend q := by
  obtain ⟨hchannel, hthread, hlocation⟩ := FormKey.mk.inj hkey
  obtain ⟨happ, hcall⟩ := hplaces p hp q hq hpf hqf hlocation
  obtain rfl : s.context.rootId = rootId := rootId_eq_of_getD hs hroot hthread
  obtain rfl : s.context.channelId = channelId := hchannel
  have hcontext : s.callContext p = s.callContext q := by
    rw [callContext, callContext, happ, hlocation]
  show s.ownForm backend p = s.ownForm backend q
  rw [ownForm, ownForm, hcontext, fetchForm, fetchForm, hcall]

/-! ## What a session leaves in the cache -/

/-- What the cache has for a place is what the app would answer there, whatever channel and thread
the session moves to. -/
structure Faithful (s : Session) (backend : Backend Id) (c : FormCache) : Prop where
  wellFormed : c.WellFormed
  own : ∀ (channelId : String) (rootId : Option String), rootId ≠ some "" →
    ∀ p ∈ Binding.places s.bindings, p.isFetched = true →
      ∀ form, c.get? ((s.setChannel channelId rootId).formKey p) = some form →
        (s.setChannel channelId rootId).ownForm backend p = .ok form

theorem faithful_empty (s : Session) (backend : Backend Id) : s.Faithful backend .empty where
  wellFormed := FormCache.WellFormed.empty
  own _ _ _ _ _ _ _ h := by cases h

/-- A fetch for a place answers what the app would, from the cache or not. -/
theorem Faithful.fetch (h : s.Faithful backend c) (hplaces : Binding.OwnLocations s.bindings)
    (hs : s.NamesThread) {p : Place} (hp : p ∈ Binding.places s.bindings)
    (hfetched : p.isFetched = true) :
    let out := ((FormCache.fetch backend (s.formKey p) p.binding (s.callContext p)).run c).run
    out.1 = s.ownForm backend p ∧ s.Faithful backend out.2 := by
  refine ⟨?_, h.wellFormed.run_fetch, ?_⟩
  · rw [FormCache.run_fetch]
    split
    · rename_i form hform
      exact (h.own _ _ hs p hp hfetched form hform).symm
    · rfl
  · intro channelId rootId hroot q hq hqf form hform
    rcases FormCache.get?_of_run_fetch h.wellFormed hform with hold | ⟨hkey, hnew⟩
    · exact h.own channelId rootId hroot q hq hqf form hold
    · rw [← ownForm_eq_of_formKey_eq hplaces hp hq hfetched hqf hs hroot hkey.symm]
      exact hnew

/-- A scan of a command leaves the cache alone, or else is made of the form that is fetched for a
place of the tree. -/
theorem run_parse_cases (s : Session) (backend : Backend Id) (command : String) (mode : ScanMode) :
    (∃ result, ∀ c, ((s.parse backend command mode).run c).run = (result, c)) ∨
      ∃ p ∈ Binding.places s.bindings, p.isFetched = true ∧ ∃ toScan : Form → Scan, ∀ c,
        ((s.parse backend command mode).run c).run =
          let out := ((FormCache.fetch backend (s.formKey p) p.binding (s.callContext p)).run c).run
          (out.1.map toScan, out.2) := by
  unfold parse
  dsimp only
  cases hsource : s.formSource (s.matchCommand command mode) with
  | none => exact .inl ⟨_, fun _ => rfl⟩
  | inline form => exact .inl ⟨_, fun _ => rfl⟩
  | remote binding key context =>
    obtain ⟨p, hp, hfetched, rfl, rfl, rfl⟩ := place_of_formSource hsource
    exact .inr ⟨p, hp, hfetched, _, fun _ => rfl⟩

/-- A command is scanned as it would be with an empty cache. -/
theorem Faithful.parse (h : s.Faithful backend c) (hplaces : Binding.OwnLocations s.bindings)
    (hs : s.NamesThread) (command : String) (mode : ScanMode) :
    ((s.parse backend command mode).run c).run.1 =
        ((s.parse backend command mode).run .empty).run.1 ∧
      s.Faithful backend ((s.parse backend command mode).run c).run.2 := by
  rcases s.run_parse_cases backend command mode with
    ⟨result, hrun⟩ | ⟨p, hp, hfetched, toScan, hrun⟩
  · rw [hrun, hrun]
    exact ⟨rfl, h⟩
  · obtain ⟨hanswer, hkept⟩ := h.fetch hplaces hs hp hfetched
    obtain ⟨hfresh, -⟩ := (s.faithful_empty backend).fetch hplaces hs hp hfetched
    rw [hrun, hrun]
    exact ⟨congrArg (·.map toScan) (hanswer.trans hfresh.symm), hkept⟩

/-- A command at a leaf whose form is fetched is read with the form that comes. -/
theorem run_compose_of_remote {scan : Scan} {form : Form} {c' : FormCache}
    (hmatch : s.matchCommand command .execute = scan)
    (hsource : s.formSource scan = .remote binding key context)
    (hfetch : ((FormCache.fetch backend key binding context).run c).run = (.ok form, c')) :
    ((s.compose backend command).run c).run =
      ((s.finish backend ((scan.withForm form).parseForm .execute)).run, c') := by
  rw [run_compose, run_parse_of_remote hmatch hsource, hfetch]
  rfl

end Session

/-! ## Sessions -/

/-- What is done in a session. -/
inductive SessionStep where
  | compose (command : String)
  | suggest (text : String)
  | setChannel (channelId : String) (rootId : Option String)

/-- If the step moves to a thread, the thread has a name. -/
def SessionStep.NamesThread : SessionStep → Prop
  | .setChannel _ rootId => rootId ≠ some ""
  | _ => True

namespace Session

/-- The session and its cache after a step. -/
def perform (backend : Backend Id) (p : Session × FormCache) : SessionStep → Session × FormCache
  | .compose command => (p.1, ((p.1.compose backend command).run p.2).run.2)
  | .suggest text => (p.1, ((p.1.suggest backend text).run p.2).run.2)
  | .setChannel channelId rootId => (p.1.setChannel channelId rootId, p.2)

/-- The session and its cache after some steps, beginning with an empty cache. -/
def performAll (s : Session) (backend : Backend Id) (steps : List SessionStep) :
    Session × FormCache :=
  steps.foldl (perform backend) (s, .empty)

variable {s : Session} {backend : Backend Id} {c : FormCache} {step : SessionStep}

/-! ## Where the cache is seen -/

/-- A leaf whose form is fetched. -/
def ticketLeaf (label location : String) : Binding where
  label := label
  location := location
  call := some { path := "/" ++ label ++ "-form" }

/-- A session in a tree of two leaves at the given locations. -/
def ticketSession (locations : String × String) : Session where
  bindings := [ticketLeaf "open" locations.1, ticketLeaf "close" locations.2]

/-- An app whose forms submit to one path or another, by a test on what was asked. -/
def ticketApp (opens : CallRequest → Bool) : Backend Id where
  performCall request _ :=
    .ok (.form { call := some { path := if opens request then "/open" else "/close" } })
  userByUsername _ := .ok none
  channelByName _ _ := .ok none
  usersByPrefix _ := .ok []
  channelsByPrefix _ _ := .ok []

/-- The scan of a command that is the label of a leaf at the location of the tickets. -/
def ticketScan (label command : String) : Scan where
  state := .command
  text := command.toList
  cursor := command.length
  tokenStart := command.length
  location := "/ticket"
  binding := some (ticketLeaf label "ticket")

theorem matchCommand_open :
    (ticketSession ("ticket", "ticket")).matchCommand "/open" .execute =
      ticketScan "open" "/open" :=
  matchCommand_of_runWithin 20 (ticketScan "open" "/open")
    (s := ticketSession ("ticket", "ticket")) (List.cons_ne_nil _ _) rfl

theorem matchCommand_close :
    (ticketSession ("ticket", "ticket")).matchCommand "/close" .execute =
      ticketScan "close" "/close" :=
  matchCommand_of_runWithin 20 (ticketScan "close" "/close")
    (s := ticketSession ("ticket", "ticket")) (List.cons_ne_nil _ _) rfl

theorem treeDefect?_ticketSession (locations : String × String) :
    Binding.treeDefect? (ticketSession locations).bindings = none := by
  have hopen : Binding.labelDefect? [] [] "open" = none := by decide
  have hclose : Binding.labelDefect? [] ["open"] "close" = none := by decide
  exact Binding.defectBelow?_cons_eq_none_iff.mpr ⟨hopen, rfl, Binding.defectBelow?_nil,
    Binding.defectBelow?_cons_eq_none_iff.mpr
      ⟨hclose, rfl, Binding.defectBelow?_nil, Binding.defectBelow?_nil⟩⟩

/-- Two leaves at one location.  Behind a command for the first, the second has its form. -/
theorem compose_after_open :
    let app := ticketApp (·.call.path == "/open-form")
    let session := ticketSession ("ticket", "ticket")
    let cache := (session.performAll app [.compose "/open"]).2
    Binding.treeDefect? session.bindings = none ∧
    ((session.compose app "/close").run cache).run.1.toOption.map (·.call.path) = some "/open" ∧
    ((session.compose app "/close").run .empty).run.1.toOption.map (·.call.path) =
      some "/close" := by
  intro app session cache
  have hcache : cache = ⟨[some { call := some { path := "/open" } }],
      [(⟨"", "", "/ticket"⟩, 0)]⟩ := by
    show ((session.compose app "/open").run .empty).run.2 = _
    rw [run_compose_of_remote matchCommand_open rfl rfl]
    rfl
  let read (path : String) : Scan :=
    { ticketScan "close" "/close" with
      state := .startParameter, form := some { call := some { path } } }
  refine ⟨treeDefect?_ticketSession _, ?_, ?_⟩
  · rw [hcache, run_compose_of_remote matchCommand_close rfl rfl,
      Scan.parseForm_of_runWithin 20 (read "/open") rfl rfl]
    rfl
  · rw [run_compose_of_remote matchCommand_close rfl rfl,
      Scan.parseForm_of_runWithin 20 (read "/close") rfl rfl]
    rfl

/-- A leaf whose form depends on the thread.  Behind a command outside all threads, it has the same
form in a thread without a name. -/
theorem compose_in_unnamed_thread :
    let app := ticketApp (·.context.rootId.isNone)
    let session := ticketSession ("ticket", "ticket")
    let reached := session.performAll app [.compose "/open", .setChannel "" (some "")]
    ((reached.1.compose app "/open").run reached.2).run.1.toOption.map (·.call.path) =
      some "/open" ∧
    ((reached.1.compose app "/open").run .empty).run.1.toOption.map (·.call.path) =
      some "/close" := by
  intro app session reached
  have hreached : reached = (session.setChannel "" (some ""),
      ⟨[some { call := some { path := "/open" } }], [(⟨"", "", "/ticket"⟩, 0)]⟩) := by
    show (session.setChannel "" (some ""), ((session.compose app "/open").run .empty).run.2) = _
    rw [run_compose_of_remote matchCommand_open rfl rfl]
    rfl
  have hmatch : (session.setChannel "" (some "")).matchCommand "/open" .execute =
      ticketScan "open" "/open" := matchCommand_open
  let read (path : String) : Scan :=
    { ticketScan "open" "/open" with
      state := .startParameter, form := some { call := some { path } } }
  rw [hreached]
  refine ⟨?_, ?_⟩
  · rw [run_compose_of_remote hmatch rfl rfl,
      Scan.parseForm_of_runWithin 20 (read "/open") rfl rfl]
    rfl
  · rw [run_compose_of_remote hmatch rfl rfl,
      Scan.parseForm_of_runWithin 20 (read "/close") rfl rfl]
    rfl

/-! ## Where the cache is not seen -/

/-- The state of affairs in a session: a faithful cache, and a thread that has a name. -/
structure Sound (bindings : List Binding) (backend : Backend Id) (p : Session × FormCache) :
    Prop where
  bindings_eq : p.1.bindings = bindings
  namesThread : p.1.NamesThread
  faithful : p.1.Faithful backend p.2

/-- Every step keeps it. -/
theorem Sound.perform {bindings : List Binding} {p : Session × FormCache}
    (h : Sound bindings backend p) (hplaces : Binding.OwnLocations bindings)
    (hstep : step.NamesThread) : Sound bindings backend (perform backend p step) := by
  have hplaces' : Binding.OwnLocations p.1.bindings := h.bindings_eq.symm ▸ hplaces
  cases step with
  | compose command =>
    refine ⟨h.bindings_eq, h.namesThread, ?_⟩
    show p.1.Faithful backend ((p.1.compose backend command).run p.2).run.2
    rw [run_compose]
    exact (h.faithful.parse hplaces' h.namesThread command .execute).2
  | suggest text =>
    refine ⟨h.bindings_eq, h.namesThread, ?_⟩
    show p.1.Faithful backend ((p.1.suggest backend text).run p.2).run.2
    rw [run_suggest]
    exact (h.faithful.parse hplaces' h.namesThread text .autocomplete).2
  | setChannel channelId rootId =>
    exact ⟨h.bindings_eq, hstep, h.faithful.wellFormed, h.faithful.own⟩

theorem Sound.performAll {bindings : List Binding} {p : Session × FormCache}
    (h : Sound bindings backend p) (hplaces : Binding.OwnLocations bindings)
    {steps : List SessionStep} (hsteps : ∀ step ∈ steps, step.NamesThread) :
    Sound bindings backend (steps.foldl (Session.perform backend) p) := by
  induction steps generalizing p with
  | nil => exact h
  | cons step steps ih =>
    exact ih (h.perform hplaces (hsteps step List.mem_cons_self))
      fun step' hstep' => hsteps step' (List.mem_cons_of_mem _ hstep')

/-- **The cache is not seen.**  In a tree whose leaves have locations of their own, and with threads
that have names, a command in the course of a session becomes what it would become in a new session
at the same place, and what the cache has for a leaf is what the app answers for that leaf. -/
theorem compose_performAll (session : Session) (backend : Backend Id)
    (hplaces : Binding.OwnLocations session.bindings) (hthread : session.NamesThread)
    (steps : List SessionStep) (hsteps : ∀ step ∈ steps, step.NamesThread) (command : String) :
    let s := (session.performAll backend steps).1
    let cache := (session.performAll backend steps).2
    s.bindings = session.bindings ∧
    ((s.compose backend command).run cache).run.1 = ((s.compose backend command).run .empty).run.1 ∧
    ∀ p ∈ Binding.places session.bindings, p.isFetched = true →
      ∀ form, cache.get? (s.formKey p) = some form → s.ownForm backend p = .ok form := by
  intro s cache
  have hsound : Sound session.bindings backend (s, cache) :=
    Sound.performAll (p := (session, .empty)) ⟨rfl, hthread, session.faithful_empty backend⟩
      hplaces hsteps
  have hbindings : s.bindings = session.bindings := hsound.bindings_eq
  have hnames : s.NamesThread := hsound.namesThread
  have hfaithful : s.Faithful backend cache := hsound.faithful
  have hplaces' : Binding.OwnLocations s.bindings := hbindings.symm ▸ hplaces
  refine ⟨hbindings, ?_, ?_⟩
  · rw [run_compose, run_compose]
    dsimp only
    rw [(hfaithful.parse hplaces' hnames command .execute).1]
  · intro p hp hfetched form hform
    rw [← hbindings] at hp
    exact hfaithful.own _ _ hnames p hp hfetched form hform

/-- Two leaves at locations of their own, and a session that goes into a thread. -/
theorem compose_performAll_tickets :
    let app := ticketApp (·.call.path == "/open-form")
    let session := ticketSession ("opening", "closing")
    let steps := [.compose "/open", .setChannel "town" (some "thread"), .suggest "/close "]
    let reached := session.performAll app steps
    Binding.OwnLocations session.bindings ∧ session.NamesThread ∧
      (∀ step ∈ steps, step.NamesThread) ∧
      ((reached.1.compose app "/close").run reached.2).run.1 =
        ((reached.1.compose app "/close").run .empty).run.1 := by
  intro app session steps reached
  have hplaces : Binding.OwnLocations session.bindings := by
    intro p hp q hq _ _ hlocation
    have hlist : Binding.places session.bindings = [⟨"", "/opening", ticketLeaf "open" "opening"⟩,
        ⟨"", "/closing", ticketLeaf "close" "closing"⟩] := by
      simp [Binding.places, Binding.placesBelow, session, ticketSession, ticketLeaf, Place.below,
        Binding.locationSegment]
    rw [hlist] at hp hq
    simp only [List.mem_cons, List.not_mem_nil, or_false] at hp hq
    rcases hp with rfl | rfl
    · rcases hq with rfl | rfl
      · exact ⟨rfl, rfl⟩
      · exact absurd hlocation (by decide)
    · rcases hq with rfl | rfl
      · exact absurd hlocation (by decide)
      · exact ⟨rfl, rfl⟩
  have hthread : session.NamesThread := fun hroot => by cases hroot
  have hsteps : ∀ step ∈ steps, step.NamesThread := by
    simp [steps, SessionStep.NamesThread]
  exact ⟨hplaces, hthread, hsteps,
    (compose_performAll session app hplaces hthread steps hsteps "/close").2.1⟩

end Session

end SlashCommand
