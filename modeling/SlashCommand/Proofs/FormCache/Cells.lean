import SlashCommand.FormCache.Fetch

/-!
# Keys and cells

What the cache answers is seen through two functions: the cell that a key leads to, and the form
that a cell holds.  Each change of the cache is described by what it does to these two, and from
there by what it does to `FormCache.get?`.

A cell is made for one key.  That no two keys ever lead to one cell is what `WellFormed` says, and
it is why the form of one key never shows under another.
-/

namespace SlashCommand

namespace FormCache

variable {c : FormCache} {key key' : FormKey} {cell cell' : Nat} {form : Form}

/-! ## What the changes do to keys and cells -/

/-- A new cell at the end changes no cell before it. -/
theorem form?_append (c : FormCache) (held : Option Form) (entries : List (FormKey × Nat))
    (cell : Nat) :
    form? ⟨c.cells ++ [held], entries⟩ cell =
      if cell = c.cells.length then held else c.form? cell := by
  unfold form?
  dsimp only
  by_cases hlt : cell < c.cells.length
  · rw [if_neg (Nat.ne_of_lt hlt), List.getElem?_append_left hlt]
  · by_cases hcell : cell = c.cells.length
    · rw [if_pos hcell, hcell, List.getElem?_concat_length]
      rfl
    · have hout : c.cells.length + 1 ≤ cell := by omega
      rw [if_neg hcell, List.getElem?_eq_none (by simpa using hout),
        List.getElem?_eq_none (by omega)]

/-- A cell that was not made yet holds nothing. -/
theorem form?_length (c : FormCache) : c.form? c.cells.length = none := by
  rw [form?, List.getElem?_eq_none (Nat.le_refl _)]
  rfl

theorem lookup_filter_ne (entries : List (FormKey × Nat)) (h : key' ≠ key) :
    (entries.filter (·.1 != key)).lookup key' = entries.lookup key' := by
  induction entries with
  | nil => rfl
  | cons entry entries ih =>
    obtain ⟨k, cell⟩ := entry
    by_cases hk : k = key
    · have hne : (key' == k) = false := beq_false_of_ne fun h' => h (h'.trans hk)
      rw [List.filter_cons_of_neg (by simpa using hk), ih, List.lookup_cons, hne]
    · rw [List.filter_cons_of_pos (by simpa using hk), List.lookup_cons, List.lookup_cons, ih]

theorem cell?_insert (c : FormCache) (key : FormKey) (form : Form) (key' : FormKey) :
    (c.insert key form).cell? key' =
      if key' = key then some c.cells.length else c.cell? key' := by
  show List.lookup key' ((key, c.cells.length) :: c.entries.filter (·.1 != key)) = _
  rw [List.lookup_cons]
  by_cases h : key' = key
  · rw [if_pos h, beq_iff_eq.mpr h]
  · rw [if_neg h, beq_false_of_ne h, lookup_filter_ne c.entries h]
    rfl

theorem form?_insert (c : FormCache) (key : FormKey) (form : Form) (cell : Nat) :
    (c.insert key form).form? cell = if cell = c.cells.length then some form else c.form? cell :=
  form?_append c (some form) _ cell

/-- The cell that is attached to a key is the one it had, or else a new one. -/
theorem attach_cases (c : FormCache) (key : FormKey) :
    c.cell? key = some (c.attach key).1 ∧ (c.attach key).2 = c ∨
      c.cell? key = none ∧ c.attach key = (c.cells.length,
        ⟨c.cells ++ [none], (key, c.cells.length) :: c.entries⟩) := by
  unfold attach
  cases h : c.cell? key with
  | some cell => exact .inl ⟨rfl, rfl⟩
  | none => exact .inr ⟨rfl, rfl⟩

theorem cell?_attach (c : FormCache) (key key' : FormKey) :
    (c.attach key).2.cell? key' = if key' = key then some (c.attach key).1 else c.cell? key' := by
  rcases c.attach_cases key with ⟨hcell, hcache⟩ | ⟨-, hnew⟩
  · rw [hcache]
    by_cases h : key' = key
    · rw [if_pos h, h, hcell]
    · rw [if_neg h]
  · rw [hnew]
    show List.lookup key' ((key, c.cells.length) :: c.entries) = _
    rw [List.lookup_cons]
    by_cases h : key' = key
    · rw [if_pos h, beq_iff_eq.mpr h]
    · rw [if_neg h, beq_false_of_ne h]
      rfl

theorem cell?_attach_self (c : FormCache) (key : FormKey) :
    (c.attach key).2.cell? key = some (c.attach key).1 :=
  (c.cell?_attach key key).trans (if_pos rfl)

theorem form?_attach (c : FormCache) (key : FormKey) (cell : Nat) :
    (c.attach key).2.form? cell = c.form? cell := by
  rcases c.attach_cases key with ⟨-, hcache⟩ | ⟨-, hnew⟩
  · rw [hcache]
  · rw [hnew, form?_append]
    by_cases h : cell = c.cells.length
    · rw [if_pos h, h, form?_length]
    · rw [if_neg h]

theorem length_le_attach (c : FormCache) (key : FormKey) :
    c.cells.length ≤ (c.attach key).2.cells.length := by
  rcases c.attach_cases key with ⟨-, hcache⟩ | ⟨-, hnew⟩
  · exact Nat.le_of_eq (congrArg (·.cells.length) hcache).symm
  · rw [hnew, List.length_append]
    omega

theorem cell?_fill (c : FormCache) (cell : Nat) (form : Form) (key : FormKey) :
    (c.fill cell form).cell? key = c.cell? key := rfl

theorem length_fill (c : FormCache) (cell : Nat) (form : Form) :
    (c.fill cell form).cells.length = c.cells.length := List.length_modify ..

theorem form?_fill_of_ne (h : cell' ≠ cell) : (c.fill cell form).form? cell' = c.form? cell' := by
  show ((c.cells.modify cell fun held => held.or (some form))[cell']?).join = _
  simp only [List.getElem?_modify, if_neg h.symm, Option.map_eq_map, Option.map_id_fun']
  rfl

/-- A cell that was made holds a form once it is filled, and keeps the one it had. -/
theorem form?_fill_self (h : cell < c.cells.length) :
    (c.fill cell form).form? cell = (c.form? cell).or (some form) := by
  show ((c.cells.modify cell fun held => held.or (some form))[cell]?).join =
    (c.cells[cell]?.join).or (some form)
  simp only [List.getElem?_modify, if_true, List.getElem?_eq_getElem h]
  rfl

/-- A filled cell keeps its form. -/
theorem form?_fill_of_some {held : Form} (h : c.form? cell' = some held) :
    (c.fill cell form).form? cell' = some held := by
  by_cases hcell : cell' = cell
  · subst hcell
    have hlt : cell' < c.cells.length := by
      refine Nat.lt_of_not_le fun hout => ?_
      rw [form?, List.getElem?_eq_none hout] at h
      cases h
    rw [form?_fill_self hlt, h]
    rfl
  · rw [form?_fill_of_ne hcell, h]

/-! ## What the changes do to the answers -/

/-- Taking hold of a cell changes no answer. -/
theorem get?_attach (c : FormCache) (key key' : FormKey) :
    (c.attach key).2.get? key' = c.get? key' := by
  have hform : (c.attach key).2.form? = c.form? := funext (c.form?_attach key)
  rw [get?, get?, cell?_attach, hform]
  by_cases h : key' = key
  · rw [if_pos h, h]
    rcases c.attach_cases key with ⟨hcell, -⟩ | ⟨hnone, hnew⟩
    · rw [hcell]
    · rw [hnone, hnew]
      exact c.form?_length
  · rw [if_neg h]

/-- Taking hold of a cell changes no count. -/
theorem size_attach (c : FormCache) (key : FormKey) : (c.attach key).2.size = c.size := by
  have hform (cell : Nat) : (c.attach key).2.form? cell = c.form? cell := c.form?_attach key cell
  simp only [size, hform]
  rcases c.attach_cases key with ⟨-, hcache⟩ | ⟨-, hnew⟩
  · rw [hcache]
  · rw [hnew, List.countP_cons_of_neg]
    rw [c.form?_length]
    exact Bool.false_ne_true

theorem get?_eq_of_cell? (h : c.cell? key = some cell) : c.get? key = c.form? cell := by
  rw [get?, h]
  rfl

/-- The form under a key is found in the cell that is attached to it. -/
theorem form?_attach_self (c : FormCache) (key : FormKey) :
    (c.attach key).2.form? (c.attach key).1 = c.get? key := by
  rw [← get?_eq_of_cell? (c.cell?_attach_self key), get?_attach]

/-- Filling the cell of a key gives the key the form, unless it has one. -/
theorem get?_fill_self (h : c.cell? key = some cell) (hlt : cell < c.cells.length) :
    (c.fill cell form).get? key = (c.get? key).or (some form) := by
  have hfilled : (c.fill cell form).cell? key = some cell := h
  rw [get?_eq_of_cell? hfilled, get?_eq_of_cell? h, form?_fill_self hlt]

/-- Filling a cell that no key leads to changes no answer. -/
theorem get?_fill_of_ne (h : c.cell? key ≠ some cell) :
    (c.fill cell form).get? key = c.get? key := by
  rw [get?, get?, cell?_fill]
  cases hcell : c.cell? key with
  | none => rfl
  | some cell' =>
    refine form?_fill_of_ne fun heq => h ?_
    rw [hcell, heq]

/-- A settled fetch that failed leaves the cache as it is. -/
theorem settle_error (c : FormCache) (cell : Nat) (e : FormError) :
    c.settle cell (.error e) = c := rfl

/-! ## Well-formed caches -/

/-- The cells that keys lead to have been made, and each one for a key of its own. -/
structure WellFormed (c : FormCache) : Prop where
  cell_lt : ∀ {key cell}, c.cell? key = some cell → cell < c.cells.length
  cell_inj : ∀ {key key' cell}, c.cell? key = some cell → c.cell? key' = some cell → key = key'

namespace WellFormed

theorem empty : FormCache.empty.WellFormed where
  cell_lt h := by cases h
  cell_inj h := by cases h

/-- A cache whose keys lead where they did, one of them apart, which leads to a new cell. -/
theorem of_new {c' : FormCache} (h : c.WellFormed) (hlength : c.cells.length < c'.cells.length)
    (hcell : ∀ k, c'.cell? k = if k = key then some c.cells.length else c.cell? k) :
    c'.WellFormed where
  cell_lt {k cell} hk := by
    rw [hcell] at hk
    split at hk
    · cases hk
      exact hlength
    · exact Nat.lt_trans (h.cell_lt hk) hlength
  cell_inj {k k' cell} hk hk' := by
    rw [hcell] at hk hk'
    split at hk
    · rename_i hkey
      split at hk'
      · rename_i hkey'
        exact hkey.trans hkey'.symm
      · cases hk
        exact absurd (h.cell_lt hk') (Nat.lt_irrefl _)
    · split at hk'
      · cases hk'
        exact absurd (h.cell_lt hk) (Nat.lt_irrefl _)
      · exact h.cell_inj hk hk'

theorem insert (h : c.WellFormed) (key : FormKey) (form : Form) : (c.insert key form).WellFormed :=
  h.of_new (by simp [FormCache.insert]) (c.cell?_insert key form)

/-- A form that is put under one key does not show under another. -/
theorem get?_insert_of_ne (h : c.WellFormed) (form : Form) (hne : key' ≠ key) :
    (c.insert key form).get? key' = c.get? key' := by
  rw [get?, get?, cell?_insert, if_neg hne]
  cases hcell : c.cell? key' with
  | none => rfl
  | some cell =>
    show (c.insert key form).form? cell = c.form? cell
    rw [form?_insert, if_neg (Nat.ne_of_lt (h.cell_lt hcell))]

theorem clear (_ : c.WellFormed) : c.clear.WellFormed where
  cell_lt h := by cases h
  cell_inj h := by cases h

theorem attach (h : c.WellFormed) (key : FormKey) : (c.attach key).2.WellFormed := by
  have hcell := c.cell?_attach key
  rcases c.attach_cases key with ⟨-, hcache⟩ | ⟨-, hnew⟩
  · rw [hcache]
    exact h
  · rw [hnew] at hcell ⊢
    exact h.of_new (by simp) hcell

theorem fill (h : c.WellFormed) (cell : Nat) (form : Form) : (c.fill cell form).WellFormed where
  cell_lt hk := by
    rw [length_fill]
    exact h.cell_lt hk
  cell_inj hk hk' := h.cell_inj hk hk'

theorem settle (h : c.WellFormed) (cell : Nat) (result : Except FormError Form) :
    (c.settle cell result).WellFormed := by
  cases result with
  | error e => exact h
  | ok form => exact h.fill cell form

end WellFormed

/-- The cell that is attached to a key has been made. -/
theorem attach_lt (h : c.WellFormed) (key : FormKey) :
    (c.attach key).1 < (c.attach key).2.cells.length :=
  (h.attach key).cell_lt (c.cell?_attach_self key)

end FormCache

end SlashCommand
