import SlashCommand.Proofs.FormCache.Cells

/-!
# Fetching from a backend that answers at once

If nothing comes between the call for a form and its answer, a fetch is one change of the cache.  It
answers the form that is there, or else what comes of the call (`FormCache.run_fetch`), and no key
but its own has another form than before (`FormCache.get?_of_run_fetch`).
-/

namespace SlashCommand

namespace FormCache

variable {c : FormCache} {key key' : FormKey} {binding : Binding} {context : CallContext}
  {backend : Backend Id} {form : Form}

/-- What a fetch answers and leaves behind: the form that is there, or what comes of the call. -/
theorem run_fetch (backend : Backend Id) (key : FormKey) (binding : Binding) (context : CallContext)
    (c : FormCache) : ((fetch backend key binding context).run c).run =
      match c.get? key with
      | some form => (.ok form, (c.attach key).2)
      | none => ((fetchForm backend binding context).run,
        (c.attach key).2.settle (c.attach key).1 (fetchForm backend binding context).run) := by
  rw [← form?_attach_self]
  unfold fetch
  cases h : (c.attach key).2.form? (c.attach key).1 with
  | some form => simp [h, StateT.run_bind]
  | none => simp [h, StateT.run_bind]

/-- A fetch changes what the cache has under its own key only, and only from nothing to a form that
came of the call. -/
theorem get?_of_run_fetch (h : c.WellFormed) (hform :
      (((fetch backend key binding context).run c).run.2).get? key' = some form) :
    c.get? key' = some form ∨
      key' = key ∧ (fetchForm backend binding context).run = .ok form := by
  rw [run_fetch] at hform
  split at hform
  · rw [get?_attach] at hform
    exact .inl hform
  · rename_i hnone
    cases hresult : (fetchForm backend binding context).run with
    | error e =>
      rw [hresult, settle_error, get?_attach] at hform
      exact .inl hform
    | ok fetched =>
      rw [hresult] at hform
      have hcell := c.cell?_attach_self key
      by_cases hkey : key' = key
      · subst hkey
        have hfilled : ((c.attach key').2.fill (c.attach key').1 fetched).get? key' =
            ((c.attach key').2.get? key').or (some fetched) :=
          get?_fill_self hcell (attach_lt h key')
        rw [get?_attach, hnone] at hfilled
        obtain rfl := Option.some.inj (hfilled.symm.trans hform)
        exact .inr ⟨rfl, rfl⟩
      · have hne : (c.attach key).2.cell? key' ≠ some (c.attach key).1 := fun hcell' =>
          hkey ((h.attach key).cell_inj hcell' hcell)
        have hother : ((c.attach key).2.fill (c.attach key).1 fetched).get? key' =
            (c.attach key).2.get? key' := get?_fill_of_ne hne
        rw [get?_attach] at hother
        exact .inl (hother.symm.trans hform)

/-- After a fetch that answers a form, its key has that form. -/
theorem get?_self_of_run_fetch {c' : FormCache} (h : c.WellFormed)
    (hfetch : ((fetch backend key binding context).run c).run = (.ok form, c')) :
    c'.get? key = some form := by
  rw [run_fetch] at hfetch
  split at hfetch
  · rename_i held hheld
    cases hfetch
    rw [get?_attach, hheld]
  · rename_i hnone
    cases hresult : (fetchForm backend binding context).run with
    | error e =>
      rw [hresult] at hfetch
      cases hfetch
    | ok fetched =>
      rw [hresult] at hfetch
      cases hfetch
      show ((c.attach key).2.fill (c.attach key).1 form).get? key = some form
      rw [get?_fill_self (c.cell?_attach_self key) (attach_lt h key), get?_attach, hnone]
      rfl

/-- A form that was fetched is answered again without a call. -/
theorem run_fetch_again {c' : FormCache} (h : c.WellFormed)
    (hfetch : ((fetch backend key binding context).run c).run = (.ok form, c')) :
    ((fetch backend key binding context).run c').run = (.ok form, (c'.attach key).2) := by
  rw [run_fetch, get?_self_of_run_fetch h hfetch]

/-- A fetch takes no form away and puts none in its place. -/
theorem get?_run_fetch_of_some (h : c.WellFormed) (hheld : c.get? key' = some form) :
    (((fetch backend key binding context).run c).run.2).get? key' = some form := by
  rw [run_fetch]
  split
  · rw [get?_attach, hheld]
  · rename_i hnone
    have hkey : key' ≠ key := by
      rintro rfl
      cases hnone.symm.trans hheld
    cases (fetchForm backend binding context).run with
    | error e => rw [settle_error, get?_attach, hheld]
    | ok fetched =>
      have hne : (c.attach key).2.cell? key' ≠ some (c.attach key).1 := fun hcell =>
        hkey ((h.attach key).cell_inj hcell (c.cell?_attach_self key))
      exact (get?_fill_of_ne hne).trans ((c.get?_attach key key').trans hheld)

theorem WellFormed.run_fetch (h : c.WellFormed) :
    (((fetch backend key binding context).run c).run.2).WellFormed := by
  rw [FormCache.run_fetch]
  split
  · exact h.attach key
  · exact (h.attach key).settle _ _

end FormCache

end SlashCommand
