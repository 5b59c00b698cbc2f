import SlashCommand.Proofs.Json.Reading

/-!
# What JSON has room for

Every document has a text, but not every text is read as the document.  A list or record that stands
inside too many others has no value, and a number is read as what its text stands for, which need not
be the number.  `Datum.seen` is what is read of a document where there is room for so many levels.

If the scalars of a document can be read (`Datum.IsLegible`), then all of it can be read exactly if it
has no more levels than there is room for (`Nested.isResolved_seen`, `Nested.of_seen`), and any more
room makes no difference (`Nested.seen_eq_of_le`).
-/

namespace SlashCommand.Datum

/-- The token that the text of a number is. -/
def numberToken? (v : Number) : Option Json.Token := Json.wordToken? (v.text "e+").toList.reverse

/-- A scalar whose text is read as one of its kind. -/
def IsLegible : Datum → Prop
  | .null => True
  | .bool _ => True
  | .number v => ∃ v', numberToken? v = some (.scalar (.number v'))
  | .text _ => True
  | _ => False

/-- What is read of a number. -/
def seenNumber (v : Number) : Datum :=
  match numberToken? v with
  | some (.scalar d) => d
  | _ => .unreadable

mutual

/-- What is read of a document where there is room for so many levels. -/
def seen : Nat → Datum → Datum
  | _, .number v => seenNumber v
  | 0, .list _ => .unreadable
  | n + 1, .list items => .list (seenItems n items)
  | 0, .record _ => .unreadable
  | n + 1, .record ms => .record (seenMembers n ms)
  | _, d => d

/-- What is read of the items of a list. -/
def seenItems (n : Nat) : List Datum → List Datum
  | [] => []
  | d :: ds => seen n d :: seenItems n ds

/-- What is read of the members of a record. -/
def seenMembers (n : Nat) : List (String × Datum) → List (String × Datum)
  | [] => []
  | (k, d) :: ms => (k, seen n d) :: seenMembers n ms

end

variable {n m k : Nat} {d : Datum} {items : List Datum} {ms : List (String × Datum)}

theorem seenItems_eq_map : seenItems n items = items.map (seen n) := by
  induction items with
  | nil => rfl
  | cons d items ih => exact congrArg (seen n d :: ·) ih

theorem seenMembers_eq_map : seenMembers n ms = ms.map fun m => (m.1, seen n m.2) := by
  induction ms with
  | nil => rfl
  | cons m ms ih => exact congrArg ((m.1, seen n m.2) :: ·) ih

@[simp] theorem seen_null : seen n .null = .null := by cases n <;> rfl

@[simp] theorem seen_bool (b : Bool) : seen n (.bool b) = .bool b := by cases n <;> rfl

@[simp] theorem seen_number (v : Number) : seen n (.number v) = seenNumber v := by
  cases n <;> rfl

@[simp] theorem seen_text (s : String) : seen n (.text s) = .text s := by cases n <;> rfl

@[simp] theorem seen_list_zero : seen 0 (.list items) = .unreadable := rfl

@[simp] theorem seen_record_zero : seen 0 (.record ms) = .unreadable := rfl

@[simp] theorem seen_list_succ : seen (n + 1) (.list items) = .list (items.map (seen n)) :=
  congrArg list seenItems_eq_map

@[simp] theorem seen_record_succ :
    seen (n + 1) (.record ms) = .record (ms.map fun m => (m.1, seen n m.2)) :=
  congrArg record seenMembers_eq_map

/-! ## Scalars -/

/-- A whole number of sixty-four bits is read as what it is. -/
theorem numberToken?_whole {n : Int} (h : InWord n) :
    numberToken? (.whole n) = some (.scalar (.number (.whole n))) := by
  have hchars (word : String) (hword : 'l' ∈ word.toList ∨ 'e' ∈ word.toList) :
      String.ofList (toString n).toList.reverse.reverse ≠ word := by
    rintro rfl
    rw [List.reverse_reverse, String.toList_ofList] at hword
    rcases hword with hl | he
    · rcases Numeral.mem_toString hl with hc | hc <;> cases hc
    · rcases Numeral.mem_toString he with hc | hc <;> cases hc
  obtain ⟨numeral, hnumeral, hvalue⟩ :=
    Option.bind_eq_some_iff.mp (Numeral.value?_ofChars?_toString h)
  rw [numberToken?, Number.text]
  unfold Json.wordToken?
  split
  · next heq => exact absurd heq (hchars _ (by decide))
  · next heq => exact absurd heq (hchars _ (by decide))
  · next heq => exact absurd heq (hchars _ (by decide))
  · rw [List.reverse_reverse, hnumeral, Option.map_some, hvalue]
    rfl

theorem isLegible_of_isWritten (h : IsWritten d) : IsLegible d := by
  cases d with
  | number v =>
    cases v with
    | whole n => exact ⟨_, numberToken?_whole h⟩
    | float bits => exact h.elim
  | _ => exact h

theorem seen_of_isWritten (h : IsWritten d) : seen n d = d := by
  cases d with
  | number v =>
    cases v with
    | whole i =>
      have hi : InWord i := h
      rw [seen_number, seenNumber, numberToken?_whole hi]
    | float bits => exact h.elim
  | null => exact seen_null
  | bool b => exact seen_bool b
  | text s => exact seen_text s
  | _ => exact h.elim

/-- What is read of a scalar does not depend on the room. -/
theorem seen_of_isLegible (h : IsLegible d) : seen n d = seen m d := by
  cases d with
  | number v => rw [seen_number, seen_number]
  | null => rw [seen_null, seen_null]
  | bool b => rw [seen_bool, seen_bool]
  | text s => rw [seen_text, seen_text]
  | _ => exact h.elim

theorem isResolved_seen_of_isLegible (h : IsLegible d) : IsResolved (seen n d) := by
  cases d with
  | number v =>
    obtain ⟨v', hv⟩ := h
    have hread : IsRead (.number v') := Json.Token.sound_of_wordToken? hv
    rw [seen_number, seenNumber, hv]
    exact hread.resolve_left nofun
  | null => rw [seen_null]; trivial
  | bool b => rw [seen_bool]; trivial
  | text s => rw [seen_text]; trivial
  | _ => exact h.elim

/-! ## Lists and records -/

/-- What is written as what it is is read as what it is. -/
theorem Nested.seen_eq (h : Nested IsWritten n d) : d.seen n = d := by
  induction h with
  | leaf h => exact seen_of_isWritten h
  | list _ ih => rw [seen_list_succ, List.map_congr_left ih, List.map_id']
  | record _ ih =>
    rw [seen_record_succ, List.map_congr_left fun m hm => by rw [ih m hm], List.map_id']

/-- More room than there are levels makes no difference. -/
theorem Nested.seen_eq_of_le (h : Nested IsLegible n d) (hm : n ≤ m) : d.seen m = d.seen n := by
  induction h generalizing m with
  | leaf h => exact seen_of_isLegible h
  | list _ ih =>
    obtain ⟨m, rfl⟩ := Nat.exists_eq_add_of_le' hm
    rw [← Nat.add_assoc, seen_list_succ, seen_list_succ,
      List.map_congr_left fun d hd => ih d hd (Nat.le_add_left _ m)]
  | record _ ih =>
    obtain ⟨m, rfl⟩ := Nat.exists_eq_add_of_le' hm
    rw [← Nat.add_assoc, seen_record_succ, seen_record_succ,
      List.map_congr_left fun m' hm' => by rw [ih m' hm' (Nat.le_add_left _ m)]]

/-- What is read of a document is a document of JSON. -/
theorem Nested.isRead_seen (h : Nested IsLegible k d) : Nested IsRead n (d.seen n) := by
  induction h generalizing n with
  | leaf h => exact .leaf (.inr (isResolved_seen_of_isLegible h))
  | list _ ih =>
    cases n with
    | zero => exact .leaf (.inl seen_list_zero)
    | succ n =>
      rw [seen_list_succ]
      exact .list (List.forall_mem_map.mpr fun d hd => ih d hd)
  | record _ ih =>
    cases n with
    | zero => exact .leaf (.inl seen_record_zero)
    | succ n =>
      rw [seen_record_succ]
      exact .record (List.forall_mem_map.mpr fun m hm => ih m hm)

/-- Everything in a document with no more levels than there is room for has a value. -/
theorem Nested.isResolved_seen (h : Nested IsLegible n d) : Nested IsResolved n (d.seen n) := by
  induction h with
  | leaf h => exact .leaf (isResolved_seen_of_isLegible h)
  | list _ ih =>
    rw [seen_list_succ]
    exact .list (List.forall_mem_map.mpr ih)
  | record _ ih =>
    rw [seen_record_succ]
    exact .record (List.forall_mem_map.mpr ih)

/-- A document in which everything that was read has a value has no more levels than there is room
for. -/
theorem Nested.of_seen (h : Nested IsLegible k d) (hseen : Nested IsResolved m (d.seen n)) :
    Nested IsLegible n d := by
  induction h generalizing n m with
  | leaf h => exact .leaf h
  | list _ ih =>
    cases n with
    | zero =>
      rw [seen_list_zero] at hseen
      cases hseen with
      | leaf h => exact h.elim
    | succ n =>
      rw [seen_list_succ] at hseen
      cases hseen with
      | leaf h => exact h.elim
      | list h => exact .list fun d hd => ih d hd (h _ (List.mem_map_of_mem hd))
  | record _ ih =>
    cases n with
    | zero =>
      rw [seen_record_zero] at hseen
      cases hseen with
      | leaf h => exact h.elim
    | succ n =>
      rw [seen_record_succ] at hseen
      cases hseen with
      | leaf h => exact h.elim
      | record h => exact .record fun m hm => ih m hm (h _ (List.mem_map_of_mem hm))

end SlashCommand.Datum
