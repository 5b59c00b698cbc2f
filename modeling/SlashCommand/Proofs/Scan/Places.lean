import SlashCommand.Proofs.Scan.Descents

/-!
# Places in the command tree

A command for a binding is made under an app and at a location, and both depend on the bindings that
the descent has gone through.  `Binding.placesBelow` lists a tree with the app and the location of
each of its bindings, without looking at any text.

`placed_matchBinding` says that the scan of a command never holds anything else: its binding, its
app and its location are together one of the places of the tree.
-/

namespace SlashCommand

/-- A binding with the app and the location that commands for it have. -/
structure Place where
  appId : String
  location : String
  binding : Binding

namespace Place

/-- The place of a binding right below an app and a location. -/
def below (appId location : String) (b : Binding) : Place where
  appId := if b.appId == "" then appId else b.appId
  location := location ++ "/" ++ b.locationSegment
  binding := b

/-- The form of the binding is fetched by a call. -/
def isFetched (p : Place) : Bool :=
  p.binding.form.isNone && p.binding.isLeaf && p.binding.call.isSome

end Place

namespace Binding

/-- The places of bindings below an app and a location, each one before those below it. -/
def placesBelow (appId location : String) : List Binding → List Place
  | [] => []
  | ⟨app, label, segment, icon, hint, description, call, form, children⟩ :: rest =>
    let place := Place.below appId location
      ⟨app, label, segment, icon, hint, description, call, form, children⟩
    place :: (placesBelow place.appId place.location children ++ placesBelow appId location rest)

/-- The places of a tree. -/
def places (bindings : List Binding) : List Place := placesBelow "" "" bindings

variable {appId location : String} {b : Binding} {bindings : List Binding} {p : Place}

theorem placesBelow_cons : placesBelow appId location (b :: bindings) =
    .below appId location b ::
      (placesBelow (Place.below appId location b).appId (Place.below appId location b).location
        b.bindings ++ placesBelow appId location bindings) := by
  cases b
  rw [placesBelow]

/-- Each binding has its place, and so have those below it. -/
theorem mem_placesBelow (appId location : String) (hb : b ∈ bindings) :
    .below appId location b ∈ placesBelow appId location bindings ∧
      ∀ p ∈ placesBelow (Place.below appId location b).appId
          (Place.below appId location b).location b.bindings,
        p ∈ placesBelow appId location bindings := by
  induction bindings with
  | nil => cases hb
  | cons b' bindings ih =>
    rw [placesBelow_cons]
    rcases List.mem_cons.mp hb with rfl | hb
    · exact ⟨List.mem_cons_self, fun p hp => List.mem_cons_of_mem _ (List.mem_append_left _ hp)⟩
    · obtain ⟨hhere, hbelow⟩ := ih hb
      exact ⟨List.mem_cons_of_mem _ (List.mem_append_right _ hhere),
        fun p hp => List.mem_cons_of_mem _ (List.mem_append_right _ (hbelow p hp))⟩

end Binding

namespace Scan

/-- What a scan has found, and what it may find next, are places among the given ones. -/
structure Placed (places : List Place) (s : Scan) : Prop where
  here : ∀ b, s.binding = some b → ⟨s.appId, s.location, b⟩ ∈ places
  below : ∀ p ∈ Binding.placesBelow s.appId s.location s.candidates, p ∈ places

variable {places : List Place} {mode : ScanMode} {s : Scan} {b : Binding} {e : GrammarError}

theorem Placed.enter (h : Placed places s) (hb : b ∈ s.candidates) : Placed places (s.enter b) := by
  obtain ⟨hhere, hbelow⟩ := Binding.mem_placesBelow s.appId s.location hb
  refine ⟨fun b' hb' => ?_, fun p hp => h.below p (hbelow p hp)⟩
  obtain rfl := Option.some.inj hb'
  exact h.below _ hhere

theorem Placed.fail (h : Placed places s) : Placed places (s.fail e) := ⟨h.here, h.below⟩

/-- A step of the descent moves to a place below the current one, or stays. -/
theorem DescentCase.placed {step : Step} (hcase : DescentCase mode s step)
    (h : Placed places s) : Placed places step.scan := by
  cases hcase with
  | enter _ hfind =>
    have hentered := h.enter (List.mem_of_find?_eq_some hfind)
    exact ⟨hentered.here, hentered.below⟩
  | _ => exact ⟨h.here, h.below⟩

theorem placed_descend (h : Placed places s) : Placed places (descend mode s) := by
  refine run_preserves (Placed places) ?_ ?_ h
  · exact fun t ht => (descentCase_of_eq rfl).placed ht
  · exact fun t e ht => ht.fail

/-- The binding that a command is matched to is found at one of the places of the tree. -/
theorem placed_matchBinding (command : String) (bindings : List Binding) (mode : ScanMode) :
    Placed (Binding.places bindings) ((ofText command).matchBinding bindings mode) := by
  have hnone (b : Binding) (hb : (none : Option Binding) = some b) :
      (⟨"", "", b⟩ : Place) ∈ Binding.places bindings := by
    cases hb
  rw [matchBinding, if_neg (by exact Bool.false_ne_true)]
  split
  · exact ⟨hnone, fun p hp => absurd hp (by simp [Binding.placesBelow, fail, ofText])⟩
  · have hplaced : Placed (Binding.places bindings)
        (descend mode { ofText command with candidates := bindings }) :=
      placed_descend ⟨hnone, fun p hp => hp⟩
    dsimp only
    split
    · exact hplaced
    · exact hplaced.fail

end Scan

end SlashCommand
