import SlashCommand.FormCache.Pool
import SlashCommand.Proofs.FormCache.Cells
import Mathlib.Data.Option.Basic

/-!
# Interleaved fetches

Fetches, insertions and clearings may come in any order, and a fetch may wait for its form while any
of the others happen.  A sequence of possible events is one such order, and what is shown here holds
of all of them (`after?_coalesces`).

Everything rests on two facts about cells.  A cell is filled at most once, because its form arrives
by the one call that is under way for it and no call begins for a filled cell.  And a cell is made
for one key: once that key is given another cell, or none, no key leads to the old one any more.  A
fetch that still holds on to it ends without anybody noticing.

`WellFormed` is the invariant that says so, `Transition` is what single events do, and
`WellFormed.next` puts them together.
-/

namespace SlashCommand

namespace FetchPool

/-! ## Sequences of events -/

/-- The event puts another form under a key, or takes away the one it has. -/
def Event.replaces (key : FormKey) : Event → Prop
  | .insert key' _ => key' = key
  | .clear => True
  | _ => False

/-- The events that a fetch consists of when its call fails: its beginning, its call, and the end of
the call. -/
def Event.ofFailure : Event → Prop
  | .start _ => True
  | .call _ => True
  | .reply _ (.error _) => True
  | _ => False

/-- The event ends a fetch. -/
def Event.completes (fetch : Nat) : Event → Prop
  | .resume i => i = fetch
  | .reply i _ => i = fetch
  | _ => False

/-- The form that a successful call for a key brings. -/
def Event.brought? (p : FetchPool) (key : FormKey) : Event → Option Form
  | .reply i (.ok form) => if p.fetches[i]?.any (·.key == key) then some form else none
  | _ => none

/-- The pool after some events, if they are possible one after the other. -/
def after? (p : FetchPool) : List Event → Option FetchPool
  | [] => some p
  | e :: es => (p.step? e).bind (after? · es)

/-- The forms that successful calls for a key bring in the course of some events. -/
def brought (key : FormKey) (p : FetchPool) : List Event → List Form
  | [] => []
  | e :: es => (e.brought? p key).toList ++ ((p.step? e).map (brought key · es)).getD []

/-! ## Single events -/

variable {p q r : FetchPool} {e : Event} {es : List Event} {i j cell : Nat} {f g : Fetch}
  {key : FormKey} {form : Form} {status : FetchStatus}

/-- What an event makes of a pool, and when it is possible. -/
inductive Transition (p : FetchPool) : Event → FetchPool → Prop
  | insert (key : FormKey) (form : Form) :
    Transition p (.insert key form) { p with cache := p.cache.insert key form }
  | clear : Transition p .clear { p with cache := p.cache.clear }
  | start (key : FormKey) : Transition p (.start key)
      ⟨(p.cache.attach key).2, p.fetches ++ [{ key, cell := (p.cache.attach key).1 }]⟩
  | resume {i : Nat} {f : Fetch} {form : Form} : p.fetches[i]? = some f → f.status = .waiting →
      p.cache.form? f.cell = some form →
      Transition p (.resume i) (p.setStatus i (.finished (.ok form)))
  | call {i : Nat} {f : Fetch} : p.fetches[i]? = some f → f.status = .waiting →
      p.cache.form? f.cell = none → p.isBusy f.cell = false →
      Transition p (.call i) (p.setStatus i .calling)
  | reply {i : Nat} {f : Fetch} (result : Except FormError Form) : p.fetches[i]? = some f →
      f.status = .calling → Transition p (.reply i result)
        ⟨p.cache.settle f.cell result, (p.setStatus i (.finished result)).fetches⟩

theorem Fetch.isWaiting_iff : f.isWaiting = true ↔ f.status = .waiting := by
  unfold Fetch.isWaiting
  cases f.status with
  | waiting => simp
  | calling => simp
  | finished result => simp

theorem Fetch.isCalling_iff : f.isCalling = true ↔ f.status = .calling := by
  unfold Fetch.isCalling
  cases f.status with
  | waiting => simp
  | calling => simp
  | finished result => simp

theorem transition_of_step? (h : p.step? e = some q) : Transition p e q := by
  cases e with
  | insert key form =>
    obtain rfl := Option.some.inj h
    exact .insert key form
  | clear =>
    obtain rfl := Option.some.inj h
    exact .clear
  | start key =>
    obtain rfl := Option.some.inj h
    exact .start key
  | resume i =>
    simp only [step?, resume?, guard, Option.bind_eq_bind, Option.pure_def, Option.map_eq_some_iff,
      Option.bind_eq_some_iff, Option.some.injEq] at h
    obtain ⟨_, ⟨f, hf, _, hwaiting, form, hform, rfl⟩, rfl⟩ := h
    split at hwaiting
    · rename_i hw
      exact .resume hf (Fetch.isWaiting_iff.mp hw) hform
    · cases hwaiting
  | call i =>
    simp only [step?, call?, guard, Option.bind_eq_bind, Option.pure_def,
      Option.bind_eq_some_iff] at h
    obtain ⟨f, hf, _, hguard, hq⟩ := h
    split at hguard
    · rename_i hcall
      obtain rfl := Option.some.inj hq
      obtain ⟨⟨hwaiting, hempty⟩, hidle⟩ : (f.isWaiting = true ∧ p.cache.form? f.cell = none) ∧
          p.isBusy f.cell = false := by
        simpa using hcall
      exact .call hf (Fetch.isWaiting_iff.mp hwaiting) hempty hidle
    · cases hguard
  | reply i result =>
    simp only [step?, reply?, guard, Option.bind_eq_bind, Option.pure_def,
      Option.bind_eq_some_iff] at h
    obtain ⟨f, hf, _, hguard, hq⟩ := h
    split at hguard
    · rename_i hcalling
      obtain rfl := Option.some.inj hq
      exact .reply result hf (Fetch.isCalling_iff.mp hcalling)
    · cases hguard

/-- A fetch of a pool in which one fetch was moved on is a fetch from before, moved on if it is that
one. -/
theorem fetch_of_setStatus (h : (p.setStatus i status).fetches[j]? = some g) :
    ∃ f, p.fetches[j]? = some f ∧ g.key = f.key ∧ g.cell = f.cell ∧
      (j = i ∧ g.status = status ∨ j ≠ i ∧ g = f) := by
  simp only [setStatus, List.getElem?_modify, Option.map_eq_map, Option.map_eq_some_iff] at h
  obtain ⟨f, hf, rfl⟩ := h
  refine ⟨f, hf, ?_⟩
  by_cases hi : i = j
  · rw [if_pos hi]
    exact ⟨rfl, rfl, .inl ⟨hi.symm, rfl⟩⟩
  · rw [if_neg hi]
    exact ⟨rfl, rfl, .inr ⟨Ne.symm hi, rfl⟩⟩

/-- Moving a fetch on changes nobody's key or cell. -/
theorem exists_fetch_setStatus (h : p.fetches[j]? = some f) :
    ∃ g, (p.setStatus i status).fetches[j]? = some g ∧ g.key = f.key ∧ g.cell = f.cell := by
  refine ⟨if i = j then { f with status } else f, ?_, ?_⟩
  · simp only [setStatus, List.getElem?_modify, Option.map_eq_map, h, Option.map_some]
  · by_cases hi : i = j
    · rw [if_pos hi]
      exact ⟨rfl, rfl⟩
    · rw [if_neg hi]
      exact ⟨rfl, rfl⟩

/-- A fetch of a pool in which one was begun is from before, or the new one. -/
theorem fetch_of_append (h : (p.fetches ++ [g])[j]? = some f) :
    p.fetches[j]? = some f ∨ j = p.fetches.length ∧ f = g := by
  rcases Nat.lt_trichotomy j p.fetches.length with hlt | heq | hgt
  · rw [List.getElem?_append_left hlt] at h
    exact .inl h
  · rw [heq, List.getElem?_concat_length] at h
    exact .inr ⟨heq, (Option.some.inj h).symm⟩
  · have hout : (p.fetches ++ [g]).length ≤ j := by
      rw [List.length_append]
      exact hgt
    rw [List.getElem?_eq_none hout] at h
    cases h

/-- A fetch stays in the pool, with its key and its cell. -/
theorem Transition.exists_fetch (h : Transition p e q) (hf : p.fetches[j]? = some f) :
    ∃ g, q.fetches[j]? = some g ∧ g.key = f.key ∧ g.cell = f.cell := by
  cases h with
  | insert key form => exact ⟨f, hf, rfl, rfl⟩
  | clear => exact ⟨f, hf, rfl, rfl⟩
  | start key =>
    have hlt : j < p.fetches.length := (List.getElem?_eq_some_iff.mp hf).1
    refine ⟨f, ?_, rfl, rfl⟩
    show (p.fetches ++ [_])[j]? = some f
    rw [List.getElem?_append_left hlt, hf]
  | resume _ _ _ => exact exists_fetch_setStatus hf
  | call _ _ _ _ => exact exists_fetch_setStatus hf
  | reply result _ _ => exact exists_fetch_setStatus hf

/-- Cells are only added. -/
theorem Transition.length_le (h : Transition p e q) :
    p.cache.cells.length ≤ q.cache.cells.length := by
  cases h with
  | insert key form =>
    show _ ≤ (p.cache.cells ++ [some form]).length
    rw [List.length_append]
    omega
  | clear => exact Nat.le_refl _
  | start key => exact p.cache.length_le_attach key
  | resume _ _ _ => exact Nat.le_refl _
  | call _ _ _ _ => exact Nat.le_refl _
  | @reply i f result _ _ =>
    cases result with
    | error e => exact Nat.le_refl _
    | ok form => exact Nat.le_of_eq (p.cache.length_fill f.cell form).symm

/-- A filled cell keeps its form. -/
theorem Transition.form?_of_some (h : Transition p e q) (hcell : p.cache.form? cell = some form) :
    q.cache.form? cell = some form := by
  cases h with
  | insert key form' =>
    show (p.cache.insert key form').form? cell = some form
    rw [FormCache.form?_insert, if_neg, hcell]
    rintro rfl
    rw [FormCache.form?_length] at hcell
    cases hcell
  | clear => exact hcell
  | start key => exact (p.cache.form?_attach key cell).trans hcell
  | resume _ _ _ => exact hcell
  | call _ _ _ _ => exact hcell
  | reply result _ _ =>
    cases result with
    | error e => exact hcell
    | ok form' => exact FormCache.form?_fill_of_some hcell

/-- Events of a fetch that fails change no answer and no count. -/
theorem Transition.get?_of_failure (h : Transition p e q) (he : e.ofFailure) (key : FormKey) :
    q.cache.get? key = p.cache.get? key ∧ q.cache.size = p.cache.size := by
  cases h with
  | insert key form => exact he.elim
  | clear => exact he.elim
  | start key' => exact ⟨p.cache.get?_attach key' key, p.cache.size_attach key'⟩
  | resume _ _ _ => exact he.elim
  | call _ _ _ _ => exact ⟨rfl, rfl⟩
  | reply result _ _ =>
    cases result with
    | error e => exact ⟨rfl, rfl⟩
    | ok form => exact he.elim

/-! ## The invariant -/

/-- The state of affairs among fetches and cells.  Every fetch holds on to a cell that was made for
its key.  Only one call is under way for a cell, and only as long as the cell is empty.  A fetch
that has got a form has got the one in its cell. -/
structure WellFormed (p : FetchPool) : Prop where
  cache : p.cache.WellFormed
  cell_lt : ∀ {i : Nat} {f : Fetch}, p.fetches[i]? = some f → f.cell < p.cache.cells.length
  key_eq : ∀ {i : Nat} {f : Fetch} {key : FormKey}, p.fetches[i]? = some f →
    p.cache.cell? key = some f.cell → key = f.key
  calling_inj : ∀ {i j : Nat} {f g : Fetch}, p.fetches[i]? = some f → p.fetches[j]? = some g →
    f.status = .calling → g.status = .calling → f.cell = g.cell → i = j
  calling_empty : ∀ {i : Nat} {f : Fetch}, p.fetches[i]? = some f → f.status = .calling →
    p.cache.form? f.cell = none
  finished : ∀ {i : Nat} {f : Fetch} {form : Form}, p.fetches[i]? = some f →
    f.status = .finished (.ok form) → p.cache.form? f.cell = some form

namespace WellFormed

theorem empty : WellFormed {} where
  cache := FormCache.WellFormed.empty
  cell_lt h := by cases h
  key_eq h := by cases h
  calling_inj h := by cases h
  calling_empty h := by cases h
  finished h := by cases h

theorem insert (h : p.WellFormed) (key : FormKey) (form : Form) :
    WellFormed { p with cache := p.cache.insert key form } := by
  have hform {i : Nat} {f : Fetch} (hf : p.fetches[i]? = some f) :
      (p.cache.insert key form).form? f.cell = p.cache.form? f.cell := by
    rw [FormCache.form?_insert, if_neg (Nat.ne_of_lt (h.cell_lt hf))]
  refine ⟨h.cache.insert key form, ?_, ?_, h.calling_inj, ?_, ?_⟩
  · intro i f hf
    exact Nat.lt_of_lt_of_le (h.cell_lt hf) (Transition.insert key form).length_le
  · intro i f k hf hk
    have hk' : (p.cache.insert key form).cell? k = some f.cell := hk
    rw [FormCache.cell?_insert] at hk'
    split at hk'
    · have hfresh := h.cell_lt hf
      rw [← Option.some.inj hk'] at hfresh
      exact absurd hfresh (Nat.lt_irrefl _)
    · exact h.key_eq hf hk'
  · intro i f hf hcalling
    exact (hform hf).trans (h.calling_empty hf hcalling)
  · intro i f form' hf hfinished
    exact (hform hf).trans (h.finished hf hfinished)

theorem clear (h : p.WellFormed) : WellFormed { p with cache := p.cache.clear } where
  cache := h.cache.clear
  cell_lt := h.cell_lt
  key_eq _ hk := by cases hk
  calling_inj := h.calling_inj
  calling_empty := h.calling_empty
  finished := h.finished

/-- A fetch that begins takes hold of the cell that its key leads to from then on. -/
theorem start (h : p.WellFormed) (key : FormKey) : WellFormed (p.start key) := by
  have hlt := FormCache.attach_lt h.cache key
  have hlength := p.cache.length_le_attach key
  have hform := p.cache.form?_attach key
  have hcell := p.cache.cell?_attach key
  refine ⟨h.cache.attach key, ?_, ?_, ?_, ?_, ?_⟩
  · intro i f hf
    rcases fetch_of_append hf with hf | ⟨-, rfl⟩
    · exact Nat.lt_of_lt_of_le (h.cell_lt hf) hlength
    · exact hlt
  · intro i f k hf hk
    have hattached : (p.cache.attach key).2.cell? k = some f.cell := hk
    rcases fetch_of_append hf with hf | ⟨-, rfl⟩
    · rw [hcell] at hattached
      split at hattached
      · rename_i hkey
        -- the cell of the key is the one it had, because a new one is held by no fetch yet
        rcases p.cache.attach_cases key with ⟨hold, -⟩ | ⟨-, hnew⟩
        · rw [hattached] at hold
          exact hkey.trans (h.key_eq hf hold)
        · rw [hnew] at hattached
          have hfresh := h.cell_lt hf
          rw [← Option.some.inj hattached] at hfresh
          exact absurd hfresh (Nat.lt_irrefl _)
      · exact h.key_eq hf hattached
    · exact (h.cache.attach key).cell_inj hattached (p.cache.cell?_attach_self key)
  · intro i j f g hf hg hfc hgc hfg
    rcases fetch_of_append hf with hf | ⟨-, rfl⟩
    · rcases fetch_of_append hg with hg | ⟨-, rfl⟩
      · exact h.calling_inj hf hg hfc hgc hfg
      · cases hgc
    · cases hfc
  · intro i f hf hcalling
    rcases fetch_of_append hf with hf | ⟨-, rfl⟩
    · exact (hform f.cell).trans (h.calling_empty hf hcalling)
    · cases hcalling
  · intro i f form hf hfinished
    rcases fetch_of_append hf with hf | ⟨-, rfl⟩
    · exact (hform f.cell).trans (h.finished hf hfinished)
    · cases hfinished

/-- A fetch that is moved on leaves the pool as it should be, if the change of the cache that comes
with it fills no cell but its own, and its new status is as it should be. -/
theorem move {cache : FormCache} (h : p.WellFormed) (hf : p.fetches[i]? = some f)
    (hcache : cache.WellFormed) (hlength : cache.cells.length = p.cache.cells.length)
    (hcell : ∀ key, cache.cell? key = p.cache.cell? key)
    (hkept : ∀ cell form, p.cache.form? cell = some form → cache.form? cell = some form)
    (hothers : ∀ j g, j ≠ i → p.fetches[j]? = some g → g.status = .calling →
      cache.form? g.cell = none ∧ (status = .calling → g.cell ≠ f.cell))
    (hcalling : status = .calling → cache.form? f.cell = none)
    (hfinished : ∀ form, status = .finished (.ok form) → cache.form? f.cell = some form) :
    WellFormed ⟨cache, (p.setStatus i status).fetches⟩ := by
  refine ⟨hcache, ?_, ?_, ?_, ?_, ?_⟩
  · intro j g hg
    obtain ⟨g', hg', -, hgcell, -⟩ := fetch_of_setStatus hg
    show g.cell < cache.cells.length
    rw [hgcell, hlength]
    exact h.cell_lt hg'
  · intro j g k hg hk
    obtain ⟨g', hg', hkey, hgcell, -⟩ := fetch_of_setStatus hg
    have hk' : cache.cell? k = some g.cell := hk
    rw [hgcell, hcell] at hk'
    rw [hkey]
    exact h.key_eq hg' hk'
  · intro j k g g' hg hg' hgc hgc' hgg'
    obtain ⟨a, ha, -, hacell, hacases⟩ := fetch_of_setStatus hg
    obtain ⟨b, hb, -, hbcell, hbcases⟩ := fetch_of_setStatus hg'
    rcases hacases with ⟨rfl, hastatus⟩ | ⟨hji, rfl⟩
    · rcases hbcases with ⟨rfl, -⟩ | ⟨hki, rfl⟩
      · rfl
      · obtain rfl := Option.some.inj (ha.symm.trans hf)
        exact absurd (hgg'.symm.trans hacell)
          ((hothers k g' hki hb hgc').2 (hastatus.symm.trans hgc))
    · rcases hbcases with ⟨rfl, hbstatus⟩ | ⟨hki, rfl⟩
      · obtain rfl := Option.some.inj (hb.symm.trans hf)
        exact absurd (hgg'.trans hbcell) ((hothers j g hji ha hgc).2 (hbstatus.symm.trans hgc'))
      · exact h.calling_inj ha hb hgc hgc' hgg'
  · intro j g hg hgc
    obtain ⟨a, ha, -, hacell, ⟨rfl, hstatus⟩ | ⟨hji, rfl⟩⟩ := fetch_of_setStatus hg
    · obtain rfl := Option.some.inj (ha.symm.trans hf)
      show cache.form? g.cell = none
      rw [hacell]
      exact hcalling (hstatus.symm.trans hgc)
    · exact (hothers j g hji ha hgc).1
  · intro j g form hg hgf
    obtain ⟨a, ha, -, hacell, ⟨rfl, hstatus⟩ | ⟨hji, rfl⟩⟩ := fetch_of_setStatus hg
    · obtain rfl := Option.some.inj (ha.symm.trans hf)
      show cache.form? g.cell = some form
      rw [hacell]
      exact hfinished form (hstatus.symm.trans hgf)
    · exact hkept g.cell form (h.finished ha hgf)

/-- A waiting fetch ends with the form in its cell. -/
theorem resume (h : p.WellFormed) (hf : p.fetches[i]? = some f)
    (hform : p.cache.form? f.cell = some form) :
    WellFormed (p.setStatus i (.finished (.ok form))) := by
  refine h.move hf h.cache rfl (fun _ => rfl) (fun _ _ h' => h') ?_ nofun ?_
  · intro j g _ hg hcalling
    exact ⟨h.calling_empty hg hcalling, nofun⟩
  · intro form' hstatus
    cases hstatus
    exact hform

/-- A call begins only if no other one is under way for the cell. -/
theorem call (h : p.WellFormed) (hf : p.fetches[i]? = some f) (hempty : p.cache.form? f.cell = none)
    (hidle : p.isBusy f.cell = false) : WellFormed (p.setStatus i .calling) := by
  refine h.move hf h.cache rfl (fun _ => rfl) (fun _ _ h' => h') ?_ (fun _ => hempty) nofun
  intro j g _ hg hcalling
  refine ⟨h.calling_empty hg hcalling, fun _ hcell => ?_⟩
  have hbusy : p.isBusy f.cell = true := by
    refine List.any_eq_true.mpr ⟨g, List.mem_of_getElem? hg, ?_⟩
    rw [hcell, Fetch.isCalling_iff.mpr hcalling, beq_self_eq_true]
    rfl
  rw [hidle] at hbusy
  cases hbusy

/-- The end of a call fills the cell that it was made for, which was empty, or no cell. -/
theorem reply (h : p.WellFormed) (hf : p.fetches[i]? = some f) (hcalling : f.status = .calling)
    (result : Except FormError Form) :
    WellFormed ⟨p.cache.settle f.cell result, (p.setStatus i (.finished result)).fetches⟩ := by
  have hothers (j : Nat) (g : Fetch) (hji : j ≠ i) (hg : p.fetches[j]? = some g)
      (hgc : g.status = .calling) : p.cache.form? g.cell = none ∧ g.cell ≠ f.cell :=
    ⟨h.calling_empty hg hgc, fun hcell => hji (h.calling_inj hg hf hgc hcalling hcell)⟩
  cases result with
  | error e =>
    refine h.move hf h.cache rfl (fun _ => rfl) (fun _ _ h' => h') ?_ nofun nofun
    intro j g hji hg hgc
    exact ⟨(hothers j g hji hg hgc).1, nofun⟩
  | ok form =>
    refine h.move hf (h.cache.fill f.cell form) (p.cache.length_fill f.cell form) (fun _ => rfl)
      (fun _ _ => FormCache.form?_fill_of_some) ?_ nofun ?_
    · intro j g hji hg hgc
      obtain ⟨hempty, hcell⟩ := hothers j g hji hg hgc
      exact ⟨(FormCache.form?_fill_of_ne hcell).trans hempty, nofun⟩
    · intro form' hstatus
      cases hstatus
      show (p.cache.fill f.cell form).form? f.cell = some form
      rw [FormCache.form?_fill_self (h.cell_lt hf), h.calling_empty hf hcalling]
      rfl

/-- Every event keeps the invariant. -/
theorem next (h : p.WellFormed) (hstep : Transition p e q) : q.WellFormed := by
  cases hstep with
  | insert key form => exact h.insert key form
  | clear => exact h.clear
  | start key => exact h.start key
  | resume hf _ hform => exact h.resume hf hform
  | call hf _ hempty hidle => exact h.call hf hempty hidle
  | reply result hf hcalling => exact h.reply hf hcalling result

end WellFormed

/-! ## The fetches of one key -/

/-- The fetches of a key all hold on to the cell that the key leads to. -/
def Attached (p : FetchPool) (key : FormKey) : Prop :=
  ∀ {i : Nat} {f : Fetch}, p.fetches[i]? = some f → f.key = key → p.cache.cell? key = some f.cell

theorem attached_empty : Attached {} key := by
  intro i f hf
  cases hf

/-- As long as nothing is put under a key or taken away from it, its fetches share one cell. -/
theorem Attached.next (h : p.Attached key) (hstep : Transition p e q) (he : ¬ e.replaces key) :
    q.Attached key := by
  intro i f hf hkey
  cases hstep with
  | insert key' form =>
    have hne : key ≠ key' := fun heq => he heq.symm
    exact (p.cache.cell?_insert key' form key).trans ((if_neg hne).trans (h hf hkey))
  | clear => exact absurd trivial he
  | start key' =>
    refine (p.cache.cell?_attach key' key).trans ?_
    rcases fetch_of_append hf with hold | ⟨-, rfl⟩
    · by_cases heq : key = key'
      · subst heq
        rcases p.cache.attach_cases key with ⟨hcell, -⟩ | ⟨hnone, -⟩
        · exact (if_pos rfl).trans (hcell.symm.trans (h hold hkey))
        · rw [h hold hkey] at hnone
          cases hnone
      · exact (if_neg heq).trans (h hold hkey)
    · exact if_pos hkey.symm
  | resume _ _ _ =>
    obtain ⟨g, hg, hgkey, hgcell, -⟩ := fetch_of_setStatus hf
    exact (h hg (hgkey.symm.trans hkey)).trans (congrArg some hgcell.symm)
  | call _ _ _ _ =>
    obtain ⟨g, hg, hgkey, hgcell, -⟩ := fetch_of_setStatus hf
    exact (h hg (hgkey.symm.trans hkey)).trans (congrArg some hgcell.symm)
  | reply result _ _ =>
    obtain ⟨g, hg, hgkey, hgcell, -⟩ := fetch_of_setStatus hf
    have hcell := (h hg (hgkey.symm.trans hkey)).trans (congrArg some hgcell.symm)
    cases result with
    | error e => exact hcell
    | ok form => exact hcell

/-- What a key has after an event is what it had before, or else what the event brought. -/
theorem Transition.brought (hstep : Transition p e q) (h : p.WellFormed) (ha : p.Attached key)
    (he : ¬ e.replaces key) :
    (p.cache.get? key).toList ++ (e.brought? p key).toList = (q.cache.get? key).toList := by
  cases hstep with
  | insert key' form =>
    have hne : key ≠ key' := fun heq => he heq.symm
    rw [show (p.cache.insert key' form).get? key = p.cache.get? key from
      h.cache.get?_insert_of_ne form hne]
    exact List.append_nil _
  | clear => exact absurd trivial he
  | start key' =>
    rw [p.cache.get?_attach key' key]
    exact List.append_nil _
  | resume _ _ _ => exact List.append_nil _
  | call _ _ _ _ => exact List.append_nil _
  | @reply i f result hf hcalling =>
    cases result with
    | error e => exact List.append_nil _
    | ok form =>
      show _ ++ (if (p.fetches[i]?).any (·.key == key) then some form else none).toList =
        ((p.cache.fill f.cell form).get? key).toList
      rw [hf, Option.any_some]
      by_cases hkey : f.key = key
      · have hcell := ha hf hkey
        have hempty : p.cache.get? key = none :=
          (FormCache.get?_eq_of_cell? hcell).trans (h.calling_empty hf hcalling)
        rw [if_pos (beq_iff_eq.mpr hkey), FormCache.get?_fill_self hcell (h.cell_lt hf), hempty]
        rfl
      · rw [if_neg (mt beq_iff_eq.mp hkey), FormCache.get?_fill_of_ne]
        · exact List.append_nil _
        · exact fun hcell => hkey (h.key_eq hf hcell).symm

/-! ## Cells that no key leads to -/

/-- The cell was made, and no key leads to it. -/
structure Detached (p : FetchPool) (cell : Nat) : Prop where
  lt : cell < p.cache.cells.length
  cell?_ne : ∀ key, p.cache.cell? key ≠ some cell

/-- A cell that no key leads to is never attached again. -/
theorem Detached.next (h : p.Detached cell) (hstep : Transition p e q) : q.Detached cell := by
  refine ⟨Nat.lt_of_lt_of_le h.lt hstep.length_le, fun key => ?_⟩
  cases hstep with
  | insert key' form =>
    show (p.cache.insert key' form).cell? key ≠ some cell
    rw [FormCache.cell?_insert]
    split
    · exact fun heq => absurd h.lt (Option.some.inj heq ▸ Nat.lt_irrefl _)
    · exact h.cell?_ne key
  | clear => nofun
  | start key' =>
    show (p.cache.attach key').2.cell? key ≠ some cell
    rw [FormCache.cell?_attach]
    split
    · rcases p.cache.attach_cases key' with ⟨hold, -⟩ | ⟨-, hnew⟩
      · exact fun heq => h.cell?_ne key' (hold.trans heq)
      · rw [hnew]
        exact fun heq => absurd h.lt (Option.some.inj heq ▸ Nat.lt_irrefl _)
    · exact h.cell?_ne key
  | resume _ _ _ => exact h.cell?_ne key
  | call _ _ _ _ => exact h.cell?_ne key
  | reply result _ _ =>
    cases result with
    | error e => exact h.cell?_ne key
    | ok form => exact h.cell?_ne key

/-- Once a key is given another form, or none, the cells of its fetches are detached. -/
theorem Transition.detached (hstep : Transition p e q) (h : p.WellFormed)
    (hf : p.fetches[i]? = some f) (he : e.replaces f.key) : q.Detached f.cell := by
  refine ⟨Nat.lt_of_lt_of_le (h.cell_lt hf) hstep.length_le, fun key => ?_⟩
  cases hstep with
  | insert key' form =>
    show (p.cache.insert key' form).cell? key ≠ some f.cell
    rw [FormCache.cell?_insert]
    split
    · exact fun heq => absurd (h.cell_lt hf) (Option.some.inj heq ▸ Nat.lt_irrefl _)
    · rename_i hne
      exact fun hcell => hne ((h.key_eq hf hcell).trans he.symm)
  | clear => nofun
  | start key' => exact he.elim
  | resume _ _ _ => exact he.elim
  | call _ _ _ _ => exact he.elim
  | reply result _ _ => exact he.elim

/-- The end of a fetch that holds on to a detached cell changes no answer. -/
theorem Detached.get?_of_completes (h : p.Detached cell) (hf : p.fetches[i]? = some f)
    (hcell : f.cell = cell) (hstep : Transition p e q) (he : e.completes i) (key : FormKey) :
    q.cache.get? key = p.cache.get? key := by
  cases hstep with
  | insert key' form => exact he.elim
  | clear => exact he.elim
  | start key' => exact he.elim
  | resume _ _ _ => rfl
  | call _ _ _ _ => exact he.elim
  | @reply i' g result hg _ =>
    obtain rfl : i' = i := he
    obtain rfl := Option.some.inj (hg.symm.trans hf)
    cases result with
    | error e => rfl
    | ok form =>
      refine FormCache.get?_fill_of_ne ?_
      rw [hcell]
      exact h.cell?_ne key

/-! ## Any order of events -/

theorem after?_cons (h : p.after? (e :: es) = some q) :
    ∃ r, p.step? e = some r ∧ r.after? es = some q :=
  Option.bind_eq_some_iff.mp h

/-- What every event keeps is kept by all of them. -/
theorem after?_invariant {P : FetchPool → Prop}
    (hnext : ∀ {p e q}, e ∈ es → P p → Transition p e q → P q) (hp : P p)
    (h : p.after? es = some q) : P q := by
  induction es generalizing p with
  | nil =>
    cases h
    exact hp
  | cons e es ih =>
    obtain ⟨r, hstep, hrest⟩ := after?_cons h
    have hr := hnext List.mem_cons_self hp (transition_of_step? hstep)
    exact ih (fun he => hnext (List.mem_cons_of_mem _ he)) hr hrest

theorem WellFormed.after? (h : p.WellFormed) (hq : p.after? es = some q) : q.WellFormed :=
  after?_invariant (fun _ => WellFormed.next) h hq

/-- What a key has in the end is what it had, or else the one form that was brought. -/
theorem brought_after? (h : p.WellFormed) (ha : p.Attached key)
    (hes : ∀ e ∈ es, ¬ e.replaces key) (hq : p.after? es = some q) :
    (p.cache.get? key).toList ++ brought key p es = (q.cache.get? key).toList := by
  induction es generalizing p with
  | nil =>
    cases hq
    exact List.append_nil _
  | cons e es ih =>
    obtain ⟨r, hstep, hrest⟩ := after?_cons hq
    have hr := transition_of_step? hstep
    have he := hes e List.mem_cons_self
    have hes' : ∀ e ∈ es, ¬ e.replaces key := fun e he => hes e (List.mem_cons_of_mem _ he)
    have hlater := ih (h.next hr) (ha.next hr he) hes' hrest
    rw [← hlater, ← hr.brought h ha he, brought, hstep, List.append_assoc]
    rfl

/-- A key that nothing was put under has what was brought to it, if anything was. -/
theorem brought_eq_get? (hes : ∀ e ∈ es, ¬ e.replaces key) (h : after? {} es = some p) :
    brought key {} es = (p.cache.get? key).toList :=
  brought_after? WellFormed.empty attached_empty hes h

/-- All fetches of such a key that have succeeded have got what the key has. -/
theorem get?_of_finished (hes : ∀ e ∈ es, ¬ e.replaces key) (h : after? {} es = some p)
    (hf : p.fetches[i]? = some f) (hkey : f.key = key)
    (hfinished : f.status = .finished (.ok form)) :
    p.cache.get? key = some form := by
  have hattached : p.Attached key :=
    after?_invariant (P := (Attached · key)) (fun he ha hstep => ha.next hstep (hes _ he))
      attached_empty h
  rw [FormCache.get?_eq_of_cell? (hattached hf hkey)]
  exact (WellFormed.empty.after? h).finished hf hfinished

/-- A fetch whose key is replaced holds on to a detached cell from then on, as long as it lasts. -/
theorem detached_of_replaced (h : p.WellFormed) (hf : p.fetches[i]? = some f)
    (he : e.replaces f.key) (hq : p.after? (e :: es) = some q) :
    ∃ g, q.fetches[i]? = some g ∧ q.Detached g.cell := by
  obtain ⟨r, hstep, hrest⟩ := after?_cons hq
  have hr := transition_of_step? hstep
  obtain ⟨g, hg, -, hcell⟩ := hr.exists_fetch hf
  refine after?_invariant (P := fun p => ∃ g, p.fetches[i]? = some g ∧ p.Detached g.cell) ?_
    ⟨g, hg, hcell ▸ hr.detached h hf he⟩ hrest
  rintro p e q - ⟨g, hg, hdetached⟩ hnext
  obtain ⟨g', hg', -, hcell'⟩ := hnext.exists_fetch hg
  exact ⟨g', hg', hcell' ▸ hdetached.next hnext⟩

/-- Whatever order fetches, insertions and clearings come in: at most one call is under way for a
cell.  A filled cell keeps its form.  A key that is neither inserted nor cleared is brought at most
one form, and all its fetches that succeed get that one.  A fetch that fails changes neither an
answer nor a count.  A fetch whose key was inserted or cleared since it began ends without any
change of the answers. -/
theorem after?_coalesces {events : List Event} (h : after? {} events = some p) :
    (∀ (i j : Nat) (f g : Fetch), p.fetches[i]? = some f → p.fetches[j]? = some g →
      f.status = .calling → g.status = .calling → f.cell = g.cell → i = j) ∧
    (∀ more q, p.after? more = some q →
      ∀ cell form, p.cache.form? cell = some form → q.cache.form? cell = some form) ∧
    (∀ key, (∀ e ∈ events, ¬ e.replaces key) →
      (brought key {} events).length ≤ 1 ∧
      ∀ (i : Nat) (f : Fetch) (form : Form), p.fetches[i]? = some f → f.key = key →
        f.status = .finished (.ok form) → brought key {} events = [form]) ∧
    (∀ e q, p.step? e = some q → e.ofFailure →
      (∀ key, q.cache.get? key = p.cache.get? key) ∧ q.cache.size = p.cache.size ∧
        q.cache.isEmpty = p.cache.isEmpty) ∧
    (∀ (i : Nat) (f : Fetch), p.fetches[i]? = some f → ∀ e : Event, e.replaces f.key →
      ∀ mid q, p.after? (e :: mid) = some q → ∀ (last : Event) (r : FetchPool),
        last.completes i → q.step? last = some r → ∀ key, r.cache.get? key = q.cache.get? key) := by
  have hwf : p.WellFormed := WellFormed.empty.after? h
  refine ⟨fun i j f g => hwf.calling_inj, ?_, ?_, ?_, ?_⟩
  · intro more q hq cell form hcell
    exact after?_invariant (fun _ hc hstep => hstep.form?_of_some hc) hcell hq
  · intro key hes
    have hbrought := brought_eq_get? hes h
    refine ⟨?_, ?_⟩
    · rw [hbrought]
      exact Option.length_toList_le
    · intro i f form hf hkey hfinished
      rw [hbrought, get?_of_finished hes h hf hkey hfinished]
      rfl
  · intro e q hstep he
    have hsame := (transition_of_step? hstep).get?_of_failure he
    have hsize : q.cache.size = p.cache.size := (hsame ⟨"", "", ""⟩).2
    refine ⟨fun key => (hsame key).1, hsize, ?_⟩
    rw [FormCache.isEmpty, FormCache.isEmpty, hsize]
  · intro i f hf e he mid q hq last r hlast hstep key
    obtain ⟨g, hg, hdetached⟩ := detached_of_replaced hwf hf he hq
    exact hdetached.get?_of_completes hg rfl (transition_of_step? hstep) hlast key

/-- Two fetches share a call.  In a second pool the cache is cleared during the call, and when the
form arrives it does not displace the one that was fetched since. -/
theorem after?_coalesces_remind :
    let key : FormKey := ⟨"town", "", "/remind"⟩
    let old : Form := { title := some "old" }
    let new : Form := { title := some "new" }
    let shared : List Event := [.start key, .start key, .call 0, .reply 0 (.ok old), .resume 1]
    brought key {} shared = [old] ∧
    ∃ q r,
      after? {} [.start key, .call 0, .clear, .start key, .call 1, .reply 1 (.ok new)] = some q ∧
      q.step? (.reply 0 (.ok old)) = some r ∧ r.cache.get? key = some new := by
  intro key old new shared
  refine ⟨?_, ?_⟩
  · have hkept : ∀ e ∈ shared, ¬ e.replaces key := by
      simp [shared, Event.replaces]
    exact ((after?_coalesces rfl).2.2.1 key hkept).2 1 ⟨key, 0, .finished (.ok old)⟩ old rfl rfl rfl
  · have hbegun : after? {} [.start key, .call 0] = some _ := rfl
    have hlate := (after?_coalesces hbegun).2.2.2.2 0
      ⟨key, 0, .calling⟩ rfl .clear trivial [.start key, .call 1, .reply 1 (.ok new)] _ rfl
      (.reply 0 (.ok old)) _ rfl rfl key
    exact ⟨_, _, rfl, rfl, hlate⟩

end FetchPool

end SlashCommand
