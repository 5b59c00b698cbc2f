import SlashCommand.Proofs.Scan.DeepestMatch

/-!
# Following a run

A run ends by a measure, and not because its steps are counted.  Where the steps are few it is
easier to count them: `runWithin` makes at most a given number of steps and keeps the scans on the
way, and what it ends in is what the run ends in (`run_eq_of_runWithin`).

`Reaches` says of two scans that a run leads from one to the other.  A run that was followed to its
end has reached no other scans than those it has kept, which can be checked
(`Reaches.of_runWithin`).
-/

namespace SlashCommand

namespace Scan

/-- The steps of a run lead from one scan to another. -/
inductive Reaches (step : Scan → Step) (s : Scan) : Scan → Prop
  | refl : Reaches step s s
  | next {t u : Scan} : Reaches step s t → step t = .next u → Reaches step s u

/-- The scans of a run of at most `n` steps, and what it ends in. -/
def runWithin (step : Scan → Step) : Nat → Scan → Option (List Scan × Scan)
  | 0, _ => none
  | n + 1, s =>
    match step s with
    | .next s' => (runWithin step n s').map fun (visited, last) => (s :: visited, last)
    | .stop s' => some ([s], s')
    | .fail s' e => some ([s], s'.fail e)

section Loop

variable {step : Scan → Step} {measure : Scan → Nat}
  {decreases : ∀ {s s'}, step s = .next s' → measure s' < measure s} {s t u last : Scan}
  {visited : List Scan} {n : Nat}

/-- What is reached from a scan is that scan, or is reached behind its first step. -/
theorem Reaches.head (h : Reaches step s u) : u = s ∨ ∃ t, step s = .next t ∧ Reaches step t u := by
  induction h with
  | refl => exact .inl rfl
  | @next t u _ hstep ih =>
    rcases ih with rfl | ⟨t', ht', hreach⟩
    · exact .inr ⟨u, hstep, .refl⟩
    · exact .inr ⟨t', ht', .next hreach hstep⟩

theorem Reaches.trans (h : Reaches step s t) (h' : Reaches step t u) : Reaches step s u := by
  induction h' with
  | refl => exact h
  | next _ hstep ih => exact .next ih hstep

/-- What every step keeps holds of every scan that is reached. -/
theorem Reaches.preserves (h : Reaches step s t) (inv : Scan → Prop)
    (kept : ∀ t u, inv t → step t = .next u → inv u) (hs : inv s) : inv t := by
  induction h with
  | refl => exact hs
  | next _ hstep ih => exact kept _ _ ih hstep

/-- A run ends where it ends from any scan that it reaches. -/
theorem run_of_reaches (h : Reaches step s t) :
    run step measure decreases s = run step measure decreases t := by
  induction h with
  | refl => rfl
  | next _ hstep ih => rw [ih, run_of_next hstep]

/-- A run that ends within some steps is the scan, and then the run behind its first step. -/
theorem runWithin_succ (h : runWithin step (n + 1) s = some (visited, last)) :
    (∃ t rest, step s = .next t ∧ runWithin step n t = some (rest, last) ∧ visited = s :: rest) ∨
      visited = [s] ∧
        (step s = .stop last ∨ ∃ t e, step s = .fail t e ∧ last = t.fail e) := by
  rw [runWithin] at h
  split at h
  · rename_i t hstep
    obtain ⟨⟨rest, last'⟩, hrest, heq⟩ := Option.map_eq_some_iff.mp h
    cases heq
    exact .inl ⟨t, rest, hstep, hrest, rfl⟩
  · rename_i t hstep
    cases h
    exact .inr ⟨rfl, .inl hstep⟩
  · rename_i t e hstep
    cases h
    exact .inr ⟨rfl, .inr ⟨t, e, hstep, rfl⟩⟩

theorem run_of_runWithin (h : runWithin step n s = some (visited, last)) :
    run step measure decreases s = last := by
  induction n generalizing s visited with
  | zero => cases h
  | succ n ih =>
    rcases runWithin_succ h with ⟨t, rest, hstep, hrest, -⟩ | ⟨-, hstop | ⟨t, e, hfail, rfl⟩⟩
    · rw [run_of_next hstep]
      exact ih hrest
    · exact run_of_stop hstop
    · exact run_of_fail hfail

theorem mem_of_runWithin (h : runWithin step n s = some (visited, last))
    (hreach : Reaches step s t) : t ∈ visited := by
  induction n generalizing s visited with
  | zero => cases h
  | succ n ih =>
    rcases runWithin_succ h with ⟨u, rest, hstep, hrest, rfl⟩ | ⟨rfl, hend⟩
    · rcases hreach.head with rfl | ⟨u', hstep', hreach'⟩
      · exact List.mem_cons_self
      · obtain rfl := Step.next.inj (hstep.symm.trans hstep')
        exact List.mem_cons_of_mem _ (ih hrest hreach')
    · rcases hreach.head with rfl | ⟨u', hstep', -⟩
      · exact List.mem_cons_self
      · rcases hend with hstop | ⟨_, _, hfail, -⟩
        · rw [hstop] at hstep'
          cases hstep'
        · rw [hfail] at hstep'
          cases hstep'

/-- What a run that is followed to its end ends in. -/
theorem run_eq_of_runWithin (h : (runWithin step n s).map Prod.snd = some last) :
    run step measure decreases s = last := by
  obtain ⟨⟨visited, last'⟩, hrun, rfl⟩ := Option.map_eq_some_iff.mp h
  exact run_of_runWithin hrun

/-- What is checked of all scans that a run has kept holds of every scan that it reaches. -/
theorem Reaches.of_runWithin {p : Scan → Bool} (hreach : Reaches step s t)
    (h : (runWithin step n s).any (fun r => r.1.all p) = true) : p t = true := by
  obtain ⟨⟨visited, last⟩, hrun, hall⟩ := (Option.any_eq_true _ _).mp h
  exact List.all_eq_true.mp hall t (mem_of_runWithin hrun hreach)

end Loop

/-! ## The two phases -/

variable {mode : ScanMode}

theorem matchBinding_of_runWithin (n : Nat) (last : Scan) {s : Scan} {bindings : List Binding}
    (hs : s.isFailed = false) (hne : bindings ≠ [])
    (h : (runWithin (descentStep mode) n { s with candidates := bindings }).map Prod.snd =
      some last) :
    s.matchBinding bindings mode = matched mode last := by
  have hrun : descend mode { s with candidates := bindings } = last := run_eq_of_runWithin h
  rw [matchBinding, if_neg (by simp [hs]), if_neg (by simpa using hne), ← hrun]
  rfl

theorem parseForm_of_runWithin (n : Nat) (last : Scan) {s : Scan} {form : Form}
    (hs : s.isFailed = false)
    (h : (runWithin (parameterStep form mode) n (s.withForm form).rewind).map Prod.snd =
      some last) :
    (s.withForm form).parseForm mode = last := by
  rw [parseForm_withForm, if_neg (by simp [hs])]
  exact run_eq_of_runWithin h

end Scan

end SlashCommand
