import SlashCommand.Wire.Codec
import Mathlib.Data.List.Pairwise

/-!
# Documents as JSON has them

A JSON text is read as a document of two shapes only, lists and records, which are nested to a
bounded depth (`Nested`).  What stands in them is a scalar (`IsResolved`) or is unreadable
(`IsRead`), and of the scalars all but the floating-point numbers are written again as what they
are (`IsWritten`).

The readings that depend on the written format find nothing to do in such a document
(`Nested.settled?_eq_some_iff`).  Carrying it along sorts the members of its records, and what was
carried along once stays as it is (`Nested.verbatim?_self`).
-/

namespace SlashCommand.Datum

/-- Lists and records stand at most `n` deep inside each other, and everything else is a leaf. -/
inductive Nested (leaf : Datum → Prop) : Nat → Datum → Prop
  | leaf {n : Nat} {d : Datum} (h : leaf d) : Nested leaf n d
  | list {n : Nat} {items : List Datum} (h : ∀ d ∈ items, Nested leaf n d) :
      Nested leaf (n + 1) (.list items)
  | record {n : Nat} {ms : List (String × Datum)} (h : ∀ m ∈ ms, Nested leaf n m.2) :
      Nested leaf (n + 1) (.record ms)

/-- A whole number that sixty-four bits hold, signed or not. -/
def InWord (n : Int) : Prop := -Int.pow 2 63 ≤ n ∧ n < Int.pow 2 64

/-- A scalar that is written as what it is. -/
def IsWritten : Datum → Prop
  | .null => True
  | .bool _ => True
  | .number (.whole n) => InWord n
  | .text _ => True
  | _ => False

/-- A scalar of a JSON text. -/
def IsResolved : Datum → Prop
  | .number (.float bits) => (Number.float bits).isFinite = true
  | d => IsWritten d

/-- What a JSON text can have in place of a list or a record. -/
def IsRead (d : Datum) : Prop := d = .unreadable ∨ IsResolved d

variable {leaf leaf' : Datum → Prop} {n k : Nat} {d d' : Datum} {items items' : List Datum}
  {ms ms' into : List (String × Datum)}

theorem isResolved_of_isWritten (h : IsWritten d) : IsResolved d := by
  cases d with
  | number v =>
    cases v with
    | whole n => exact h
    | float bits => exact h.elim
  | _ => exact h

theorem Nested.mono (h : Nested leaf n d) (hk : n ≤ k) : Nested leaf k d := by
  induction h generalizing k with
  | leaf h => exact .leaf h
  | list _ ih =>
    cases k with
    | zero => omega
    | succ k => exact .list fun d hd => ih d hd (by omega)
  | record _ ih =>
    cases k with
    | zero => omega
    | succ k => exact .record fun m hm => ih m hm (by omega)

theorem Nested.imp (himp : ∀ d, leaf d → leaf' d) (h : Nested leaf n d) : Nested leaf' n d := by
  induction h with
  | leaf h => exact .leaf (himp _ h)
  | list _ ih => exact .list ih
  | record _ ih => exact .record ih

/-- A list among leaves and records has one level less inside. -/
theorem Nested.of_list (h : Nested IsRead n (.list items)) :
    ∃ k, n = k + 1 ∧ ∀ d ∈ items, Nested IsRead k d := by
  cases h with
  | leaf h => exact absurd h (by rintro (h | h) <;> cases h)
  | list h => exact ⟨_, rfl, h⟩

/-- So has a record. -/
theorem Nested.of_record (h : Nested IsRead n (.record ms)) :
    ∃ k, n = k + 1 ∧ ∀ m ∈ ms, Nested IsRead k m.2 := by
  cases h with
  | leaf h => exact absurd h (by rintro (h | h) <;> cases h)
  | record h => exact ⟨_, rfl, h⟩

/-- What is read from a list is read from its items. -/
theorem exists_mem_of_mapM {α β : Type} {f : α → Option β} {as : List α} {bs : List β}
    (h : as.mapM f = some bs) : ∀ b ∈ bs, ∃ a ∈ as, f a = some b := by
  induction as generalizing bs with
  | nil =>
    cases h
    exact fun b hb => absurd hb List.not_mem_nil
  | cons a as ih =>
    rw [List.mapM_cons] at h
    obtain ⟨b, hb, hrest⟩ := Option.bind_eq_some_iff.mp h
    obtain ⟨bs, hbs, hcons⟩ := Option.bind_eq_some_iff.mp hrest
    cases hcons
    refine List.forall_mem_cons.mpr ⟨⟨a, List.mem_cons_self, hb⟩, fun b' hb' => ?_⟩
    obtain ⟨a', ha', hread⟩ := ih hbs b' hb'
    exact ⟨a', List.mem_cons_of_mem a ha', hread⟩

/-- If an item is known by what is read from it, so is the list. -/
theorem eq_map_of_mapM {α β : Type} {f : α → Option β} {g : β → α} {as : List α} {bs : List β}
    (h : as.mapM f = some bs) (hitem : ∀ a ∈ as, ∀ b, f a = some b → a = g b) : as = bs.map g := by
  induction as generalizing bs with
  | nil =>
    cases h
    rfl
  | cons a as ih =>
    obtain ⟨ha, has⟩ := List.forall_mem_cons.mp hitem
    rw [List.mapM_cons] at h
    obtain ⟨b, hb, hrest⟩ := Option.bind_eq_some_iff.mp h
    obtain ⟨bs, hbs, hcons⟩ := Option.bind_eq_some_iff.mp hrest
    cases hcons
    rw [List.map_cons, ← ha b hb, ← ih hbs has]

/-- A list from which something is read has items from which something is read. -/
theorem exists_of_mapM {α β : Type} {f : α → Option β} {as : List α} {bs : List β}
    (h : as.mapM f = some bs) : ∀ a ∈ as, ∃ b, f a = some b := by
  induction as generalizing bs with
  | nil => exact List.forall_mem_nil _
  | cons a as ih =>
    rw [List.mapM_cons] at h
    obtain ⟨b, hb, hrest⟩ := Option.bind_eq_some_iff.mp h
    obtain ⟨bs, hbs, -⟩ := Option.bind_eq_some_iff.mp hrest
    exact List.forall_mem_cons.mpr ⟨⟨b, hb⟩, ih hbs⟩

/-- What is read of a list is what is read of its items. -/
theorem mapM_map_eq {α β γ : Type} {read : β → Option γ} {write : α → β} {f : α → γ} {as : List α}
    (h : ∀ a ∈ as, read (write a) = some (f a)) : (as.map write).mapM read = some (as.map f) := by
  induction as with
  | nil => rfl
  | cons a as ih =>
    obtain ⟨ha, has⟩ := List.forall_mem_cons.mp h
    rw [List.map_cons, List.mapM_cons, ha, ih has]
    rfl

/-- A list is read back if its items are. -/
theorem mapM_map {α β : Type} {read : β → Option α} {write : α → β} {as : List α}
    (h : ∀ a ∈ as, read (write a) = some a) : (as.map write).mapM read = some as := by
  rw [mapM_map_eq (f := id) h, List.map_id]

/-! ## Nothing to settle -/

theorem settledItems?_eq_some_iff
    (h : ∀ d ∈ items, ∀ d', settled? d = some d' ↔ d' = d ∧ Nested leaf n d) :
    settledItems? items = some items' ↔ items' = items ∧ ∀ d ∈ items, Nested leaf n d := by
  induction items generalizing items' with
  | nil => simp [settledItems?, eq_comm]
  | cons d items ih =>
    have hhead := h d List.mem_cons_self
    have htail (items' : List Datum) :
        settledItems? items = some items' ↔ items' = items ∧ ∀ d ∈ items, Nested leaf n d :=
      ih fun d hd => h d (List.mem_cons_of_mem _ hd)
    simp only [settledItems?, Option.bind_eq_bind, Option.bind_eq_some_iff, hhead, htail,
      Option.some.injEq, List.forall_mem_cons]
    constructor
    · rintro ⟨_, ⟨rfl, hd⟩, _, ⟨rfl, hitems⟩, rfl⟩
      exact ⟨rfl, hd, hitems⟩
    · rintro ⟨rfl, hd, hitems⟩
      exact ⟨_, ⟨rfl, hd⟩, _, ⟨rfl, hitems⟩, rfl⟩

theorem settledMembers?_eq_some_iff
    (h : ∀ m ∈ ms, ∀ d', settled? m.2 = some d' ↔ d' = m.2 ∧ Nested leaf n m.2) :
    settledMembers? ms = some ms' ↔ ms' = ms ∧ ∀ m ∈ ms, Nested leaf n m.2 := by
  induction ms generalizing ms' with
  | nil => simp [settledMembers?, eq_comm]
  | cons m ms ih =>
    have hhead := h m List.mem_cons_self
    have htail (ms' : List (String × Datum)) :
        settledMembers? ms = some ms' ↔ ms' = ms ∧ ∀ m ∈ ms, Nested leaf n m.2 :=
      ih fun m hm => h m (List.mem_cons_of_mem _ hm)
    simp only [settledMembers?, Option.bind_eq_bind, Option.bind_eq_some_iff, hhead, htail,
      Option.some.injEq, List.forall_mem_cons]
    constructor
    · rintro ⟨_, ⟨rfl, hd⟩, _, ⟨rfl, hms⟩, rfl⟩
      exact ⟨rfl, hd, hms⟩
    · rintro ⟨rfl, hd, hms⟩
      exact ⟨_, ⟨rfl, hd⟩, _, ⟨rfl, hms⟩, rfl⟩

theorem settled?_of_isResolved (h : IsResolved d) : settled? d = some d := by
  cases d with
  | plain s => exact h.elim
  | tagged tag quoted s => exact h.elim
  | list items => exact h.elim
  | record ms => exact h.elim
  | mapping es => exact h.elim
  | unreadable => exact h.elim
  | _ => rfl

/-- In a JSON text everything has its own reading already, if it has one. -/
theorem Nested.settled?_eq_some_iff (h : Nested IsRead n d) :
    d.settled? = some d' ↔ d' = d ∧ Nested IsResolved n d := by
  induction h generalizing d' with
  | leaf h =>
    rcases h with rfl | h
    · refine iff_of_false (by simp [settled?]) ?_
      rintro ⟨-, hnested⟩
      cases hnested with
      | leaf h => exact h
    · rw [settled?_of_isResolved h]
      exact ⟨fun heq => ⟨(Option.some.inj heq).symm, .leaf h⟩, fun heq => by rw [heq.1]⟩
  | @list n items _ ih =>
    rw [settled?, Option.map_eq_some_iff]
    constructor
    · rintro ⟨items', hitems, rfl⟩
      obtain ⟨rfl, hall⟩ := (settledItems?_eq_some_iff fun d hd d' => ih d hd).mp hitems
      exact ⟨rfl, .list hall⟩
    · rintro ⟨rfl, hnested⟩
      cases hnested with
      | leaf h => exact h.elim
      | list h =>
        exact ⟨items, (settledItems?_eq_some_iff fun d hd d' => ih d hd).mpr ⟨rfl, h⟩, rfl⟩
  | @record n ms _ ih =>
    rw [settled?, Option.map_eq_some_iff]
    constructor
    · rintro ⟨ms', hms, rfl⟩
      obtain ⟨rfl, hall⟩ := (settledMembers?_eq_some_iff fun m hm d' => ih m hm).mp hms
      exact ⟨rfl, .record hall⟩
    · rintro ⟨rfl, hnested⟩
      cases hnested with
      | leaf h => exact h.elim
      | record h =>
        exact ⟨ms, (settledMembers?_eq_some_iff fun m hm d' => ih m hm).mpr ⟨rfl, h⟩, rfl⟩

theorem resolvedItems?_eq (h : ∀ d ∈ items, resolved? d = settled? d) :
    resolvedItems? items = settledItems? items := by
  induction items with
  | nil => rfl
  | cons d items ih =>
    rw [resolvedItems?, settledItems?, h d List.mem_cons_self,
      ih fun d hd => h d (List.mem_cons_of_mem _ hd)]

theorem resolvedMembers?_eq (h : ∀ m ∈ ms, resolved? m.2 = settled? m.2) :
    resolvedMembers? ms = settledMembers? ms := by
  induction ms with
  | nil => rfl
  | cons m ms ih =>
    rw [resolvedMembers?, settledMembers?, h m List.mem_cons_self,
      ih fun m hm => h m (List.mem_cons_of_mem _ hm)]

theorem resolved?_of_isRead (h : IsRead d) : resolved? d = settled? d := by
  rcases h with rfl | h
  · rfl
  · rw [settled?_of_isResolved h]
    cases d with
    | number v =>
      cases v with
      | whole n => rfl
      | float bits =>
        have hfinite : (Number.float bits).isFinite = true := h
        rw [resolved?, ofFinite, if_pos hfinite]
    | plain s => exact h.elim
    | tagged tag quoted s => exact h.elim
    | list items => exact h.elim
    | record ms => exact h.elim
    | mapping es => exact h.elim
    | unreadable => exact h.elim
    | _ => rfl

/-- A JSON text has no other values than those it writes. -/
theorem Nested.resolved?_eq_settled? (h : Nested IsRead n d) : d.resolved? = d.settled? := by
  induction h with
  | leaf h => exact resolved?_of_isRead h
  | list _ ih => rw [resolved?, settled?, resolvedItems?_eq ih]
  | record _ ih => rw [resolved?, settled?, resolvedMembers?_eq ih]

/-! ## Sorted records -/

/-- The keys of the members get larger from each to the next. -/
def KeysAscend (ms : List (String × Datum)) : Prop := ms.Pairwise fun m m' => m.1 < m'.1

theorem forall_mem_insertMember {P : String × Datum → Prop} {key : String}
    (hms : ∀ m ∈ ms, P m) (hd : P (key, d)) : ∀ m ∈ insertMember key d ms, P m := by
  fun_induction insertMember key d ms with
  | case1 => simpa using hd
  | case2 d' ms =>
    exact List.forall_mem_cons.mpr ⟨hd, (List.forall_mem_cons.mp hms).2⟩
  | case3 key' d' ms => exact List.forall_mem_cons.mpr ⟨hd, hms⟩
  | case4 key' d' ms _ _ ih =>
    obtain ⟨hhead, htail⟩ := List.forall_mem_cons.mp hms
    exact List.forall_mem_cons.mpr ⟨hhead, ih htail⟩

theorem keysAscend_insertMember (h : KeysAscend ms) (key : String) (d : Datum) :
    KeysAscend (insertMember key d ms) := by
  fun_induction insertMember key d ms with
  | case1 => exact List.pairwise_singleton _ _
  | case2 d' ms =>
    exact .cons (List.pairwise_cons.mp h).1 (List.pairwise_cons.mp h).2
  | case3 key' d' ms hne hlt =>
    refine .cons (List.forall_mem_cons.mpr ⟨hlt, fun m hm => ?_⟩) h
    exact String.lt_trans hlt ((List.pairwise_cons.mp h).1 m hm)
  | case4 key' d' ms hne hlt ih =>
    obtain ⟨hhead, htail⟩ := List.pairwise_cons.mp h
    have hafter : key' < key := by
      by_contra hnot
      exact hne (String.le_antisymm hnot hlt)
    exact .cons (forall_mem_insertMember (P := fun m => key' < m.1) hhead hafter) (ih htail)

theorem insertMember_eq_append {key : String} (h : ∀ m ∈ ms, m.1 < key) :
    insertMember key d ms = ms ++ [(key, d)] := by
  induction ms with
  | nil => rfl
  | cons m ms ih =>
    obtain ⟨hhead, htail⟩ := List.forall_mem_cons.mp h
    rw [insertMember, if_neg (String.ne_of_lt hhead).symm, if_neg (String.lt_asymm hhead), ih htail]
    rfl

theorem forall_mem_sortedMembers {P : Datum → Prop} (hinto : ∀ m ∈ into, P m.2)
    (hms : ∀ m ∈ ms, P (sorted m.2)) : ∀ m ∈ sortedMembers into ms, P m.2 := by
  induction ms generalizing into with
  | nil => exact hinto
  | cons m ms ih =>
    obtain ⟨hhead, htail⟩ := List.forall_mem_cons.mp hms
    exact ih (forall_mem_insertMember (P := fun m => P m.2) hinto hhead) htail

theorem keysAscend_sortedMembers (h : KeysAscend into) (ms : List (String × Datum)) :
    KeysAscend (sortedMembers into ms) := by
  induction ms generalizing into with
  | nil => exact h
  | cons m ms ih => exact ih (keysAscend_insertMember h m.1 (sorted m.2))

/-- Members whose keys ascend are put behind each other. -/
theorem sortedMembers_eq_append (h : KeysAscend (into ++ ms)) (hms : ∀ m ∈ ms, sorted m.2 = m.2) :
    sortedMembers into ms = into ++ ms := by
  induction ms generalizing into with
  | nil => simp [sortedMembers]
  | cons m ms ih =>
    obtain ⟨hhead, htail⟩ := List.forall_mem_cons.mp hms
    have hlast : insertMember m.1 m.2 into = into ++ [m] := insertMember_eq_append fun m' hm' =>
      (List.pairwise_append.mp h).2.2 m' hm' m List.mem_cons_self
    have hrest : KeysAscend ((into ++ [m]) ++ ms) := by simpa using h
    rw [sortedMembers, hhead, hlast, ih hrest htail, List.append_assoc, List.singleton_append]

theorem sortedMembers_eq_self (h : KeysAscend ms) (hms : ∀ m ∈ ms, sorted m.2 = m.2) :
    sortedMembers [] ms = ms := sortedMembers_eq_append h hms

theorem sorted_of_isResolved (h : IsResolved d) : sorted d = d := by
  cases d with
  | list items => exact h.elim
  | record ms => exact h.elim
  | _ => rfl

theorem sortedItems_eq_map : sortedItems items = items.map sorted := by
  induction items with
  | nil => rfl
  | cons d items ih => rw [sortedItems, ih, List.map_cons]

theorem Nested.sorted (h : Nested IsResolved n d) : Nested IsResolved n d.sorted := by
  induction h with
  | leaf h =>
    rw [sorted_of_isResolved h]
    exact .leaf h
  | list _ ih =>
    rw [Datum.sorted, sortedItems_eq_map]
    exact .list (by simpa using ih)
  | record _ ih => exact .record (forall_mem_sortedMembers (fun m hm => absurd hm List.not_mem_nil) ih)

/-- What is sorted stays as it is. -/
theorem Nested.sorted_sorted (h : Nested IsResolved n d) : d.sorted.sorted = d.sorted := by
  induction h with
  | leaf h => rw [sorted_of_isResolved h, sorted_of_isResolved h]
  | @list n items _ ih =>
    rw [Datum.sorted, Datum.sorted, sortedItems_eq_map, sortedItems_eq_map, List.map_map]
    exact congrArg Datum.list (List.map_congr_left ih)
  | @record n ms _ ih =>
    rw [Datum.sorted, Datum.sorted]
    refine congrArg Datum.record (sortedMembers_eq_self ?_ ?_)
    · exact keysAscend_sortedMembers List.Pairwise.nil ms
    · exact forall_mem_sortedMembers (P := fun d => d.sorted = d)
        (fun m hm => absurd hm List.not_mem_nil) ih

/-! ## Values that are carried along -/

mutual

/-- There is a floating-point number in the document. -/
def hasFloat : Datum → Bool
  | .number (.float _) => true
  | .list items => itemsHaveFloat items
  | .record ms => membersHaveFloat ms
  | _ => false

/-- There is a floating-point number in one of the items. -/
def itemsHaveFloat : List Datum → Bool
  | [] => false
  | d :: ds => hasFloat d || itemsHaveFloat ds

/-- There is a floating-point number in one of the members. -/
def membersHaveFloat : List (String × Datum) → Bool
  | [] => false
  | (_, d) :: ms => hasFloat d || membersHaveFloat ms

end

theorem itemsHaveFloat_eq_any : itemsHaveFloat items = items.any hasFloat := by
  induction items with
  | nil => rfl
  | cons d items ih => rw [itemsHaveFloat, ih, List.any_cons]

theorem membersHaveFloat_eq_any : membersHaveFloat ms = ms.any fun m => hasFloat m.2 := by
  induction ms with
  | nil => rfl
  | cons m ms ih => rw [membersHaveFloat, ih, List.any_cons]

theorem isWritten_of_hasFloat (h : IsResolved d) (hfloat : d.hasFloat = false) : IsWritten d := by
  cases d with
  | number v =>
    cases v with
    | whole n => exact h
    | float bits => cases hfloat
  | _ => exact h

/-- Values without floating-point numbers are written as what they are. -/
theorem Nested.isWritten (h : Nested IsResolved n d) (hfloat : d.hasFloat = false) :
    Nested IsWritten n d := by
  induction h with
  | leaf h => exact .leaf (isWritten_of_hasFloat h hfloat)
  | list _ ih =>
    rw [hasFloat, itemsHaveFloat_eq_any, List.any_eq_false] at hfloat
    exact .list fun d hd => ih d hd (Bool.eq_false_iff.mpr (hfloat d hd))
  | record _ ih =>
    rw [hasFloat, membersHaveFloat_eq_any, List.any_eq_false] at hfloat
    exact .record fun m hm => ih m hm (Bool.eq_false_iff.mpr (hfloat m hm))

theorem Nested.isRead (h : Nested IsResolved n d) : Nested IsRead n d := h.imp fun _ => .inr

theorem Nested.hasFloat_sorted (h : Nested IsResolved n d) (hfloat : d.hasFloat = false) :
    d.sorted.hasFloat = false := by
  induction h with
  | leaf h => rwa [sorted_of_isResolved h]
  | list _ ih =>
    rw [hasFloat, itemsHaveFloat_eq_any, List.any_eq_false] at hfloat
    rw [Datum.sorted, sortedItems_eq_map, hasFloat, itemsHaveFloat_eq_any, List.any_map,
      List.any_eq_false]
    exact fun d hd => by simpa using ih d hd (Bool.eq_false_iff.mpr (hfloat d hd))
  | record _ ih =>
    rw [hasFloat, membersHaveFloat_eq_any, List.any_eq_false] at hfloat
    rw [Datum.sorted, hasFloat, membersHaveFloat_eq_any, List.any_eq_false]
    refine forall_mem_sortedMembers (P := fun d => ¬d.hasFloat = true)
      (fun m hm => absurd hm List.not_mem_nil) fun m hm => ?_
    rw [ih m hm (Bool.eq_false_iff.mpr (hfloat m hm))]
    exact Bool.false_ne_true

/-- Carrying a value along brings no floating-point numbers in. -/
theorem Nested.hasFloat_verbatim? (h : Nested IsRead n d) (hd : d.verbatim? = some d')
    (hfloat : d.hasFloat = false) : d'.hasFloat = false := by
  obtain ⟨resolved, hresolved, rfl⟩ := Option.map_eq_some_iff.mp hd
  rw [h.resolved?_eq_settled?] at hresolved
  obtain ⟨rfl, hnested⟩ := h.settled?_eq_some_iff.mp hresolved
  exact hnested.hasFloat_sorted hfloat

/-- What is written as what it is settles as it is. -/
theorem Nested.settled?_self (h : Nested IsWritten n d) : d.settled? = some d := by
  have hresolved : Nested IsResolved n d := h.imp fun _ => isResolved_of_isWritten
  exact hresolved.isRead.settled?_eq_some_iff.mpr ⟨rfl, hresolved⟩

/-- A value that was carried along is one of a JSON text, and stays as it is when it is carried along
again. -/
theorem Nested.verbatim?_self (h : Nested IsRead n d) (hd : d.verbatim? = some d') :
    Nested IsResolved n d' ∧ d'.verbatim? = some d' := by
  obtain ⟨resolved, hresolved, rfl⟩ := Option.map_eq_some_iff.mp hd
  rw [h.resolved?_eq_settled?] at hresolved
  obtain ⟨rfl, hnested⟩ := h.settled?_eq_some_iff.mp hresolved
  have hread := hnested.sorted.isRead
  refine ⟨hnested.sorted, ?_⟩
  rw [verbatim?, hread.resolved?_eq_settled?,
    hread.settled?_eq_some_iff.mpr ⟨rfl, hnested.sorted⟩, Option.map_some, hnested.sorted_sorted]

/-- Only nothing at all is carried along as nothing at all. -/
theorem Nested.ne_null_of_verbatim? (h : Nested IsRead n d) (hd : d.verbatim? = some d')
    (hne : d ≠ .null) : d' ≠ .null := by
  obtain ⟨resolved, hresolved, rfl⟩ := Option.map_eq_some_iff.mp hd
  rw [h.resolved?_eq_settled?] at hresolved
  obtain ⟨rfl, -⟩ := h.settled?_eq_some_iff.mp hresolved
  cases resolved with
  | null => exact absurd rfl hne
  | _ => exact nofun

end SlashCommand.Datum
