import SlashCommand.Proofs.Json.Depth
import SlashCommand.Proofs.Wire.Forms

/-!
# Bindings, read from what there is room for

A binding in memory need not come from a document, and its own document may be nested deeper than
documents are read.  What is read of it then is decided here, part by part: from what there is room
for of its document a part is read exactly if that is all of the document (`Datum.Stored`).  So a
package is read exactly if its document has no more levels than there is room for
(`BindingPackage.stored`).

Records are put together by their members.  Those that are scalars have room everywhere, and the
others have one level less (`Datum.stored_record`).  What is read has the values that were written,
except for what calls carry along, whose records are sorted and whose numbers are those of their
texts (`Call.reread`).
-/

namespace SlashCommand

open Datum

namespace Datum

variable {α : Type} {n k : Nat} {d : Datum} {items : List Datum} {leaf : Datum → Prop}
  {os : List (String × Option Datum)} {read : Datum → Option α} {write : α → Datum} {x : α}

/-! ## Values and members -/

/-- The scalars of the document can be read.  From what there is room for of it the value is read if
that is all of it, and nothing otherwise. -/
structure Stored (n : Nat) (read : Datum → Option α) (d : Datum) (x : α) : Prop where
  legible : ∃ k, Nested IsLegible k d
  read_eq : Nested IsLegible n d → read (d.seen n) = some x
  nested : ∀ y, read (d.seen n) = some y → Nested IsLegible n d

/-- The same of a member, which may be left out. -/
structure StoredMember (n : Nat) (read : Option Datum → Option α) (o : Option Datum) (x : α) :
    Prop where
  legible : ∀ d ∈ o, ∃ k, Nested IsLegible k d
  read_eq : (∀ d ∈ o, Nested IsLegible n d) → read (o.map (seen n)) = some x
  nested : ∀ y, read (o.map (seen n)) = some y → ∀ d ∈ o, Nested IsLegible n d

/-- What is written as what it is can be read. -/
theorem Nested.isLegible (h : Nested IsWritten n d) : Nested IsLegible n d :=
  h.imp fun _ => isLegible_of_isWritten

theorem Restored.stored (h : Restored n read write x) : Stored n read (write x) x where
  legible := ⟨n, h.1.isLegible⟩
  read_eq _ := by rw [h.1.seen_eq, h.2]
  nested _ _ := h.1.isLegible

theorem Kept.stored {read : Option Datum → Option α} {o : Option Datum} (h : Kept n read o x) :
    StoredMember n read o x where
  legible d hd := ⟨n, (h.1 d hd).isLegible⟩
  read_eq _ := by
    cases o with
    | none => exact h.2
    | some d => rw [Option.map_some, (h.1 d rfl).seen_eq, h.2]
  nested _ _ d hd := (h.1 d hd).isLegible

/-- A member that is there, where it is read as its document is. -/
theorem stored_some {readMember : Option Datum → Option α}
    (hread : ∀ d, readMember (some d) = read d) (h : Stored n read d x) :
    StoredMember n readMember (some d) x where
  legible _ hd := Option.some.inj hd ▸ h.legible
  read_eq hd := (hread _).trans (h.read_eq (hd d rfl))
  nested y hy _ hd := Option.some.inj hd ▸ h.nested y ((hread _).symm.trans hy)

theorem stored_required (h : Stored n read d x) : StoredMember n (·.bind read) (some d) x :=
  stored_some (fun _ => rfl) h

theorem stored_orDefault {default : α} (h : Stored n read d x) :
    StoredMember n (orDefault read default) (some d) x :=
  stored_some (fun _ => rfl) h

theorem isAbsent?_seen_list : ((list items).seen n).isAbsent? = some false := by
  cases n with
  | zero => rw [seen_list_zero]; rfl
  | succ n => rw [seen_list_succ]; rfl

theorem isAbsent?_seen_record {ms : List (String × Datum)} :
    ((record ms).seen n).isAbsent? = some false := by
  cases n with
  | zero => rw [seen_record_zero]; rfl
  | succ n => rw [seen_record_succ]; rfl

/-- A member whose document never says that there is no value. -/
theorem stored_optionally {o : Option α} {f : α → α} (h : ∀ x ∈ o, Stored n read (write x) (f x))
    (habsent : ∀ x ∈ o, ((write x).seen n).isAbsent? = some false) :
    StoredMember n (optionally read) (o.map write) (o.map f) := by
  cases o with
  | none => exact ⟨nofun, fun _ => rfl, fun _ _ => nofun⟩
  | some x =>
    have hx := h x rfl
    have hread : optionally read (some ((write x).seen n)) = (read ((write x).seen n)).map some := by
      simp [optionally, habsent x rfl]
    refine ⟨fun _ hd => Option.some.inj hd ▸ hx.legible, fun hd => ?_, fun y hy _ hd => ?_⟩
    · rw [Option.map_some, Option.map_some, hread, hx.read_eq (hd _ rfl)]
      rfl
    · rw [Option.map_some, Option.map_some, hread] at hy
      obtain ⟨y', hy', -⟩ := Option.map_eq_some_iff.mp hy
      exact Option.some.inj hd ▸ hx.nested y' hy'

/-! ## Lists and records -/

/-- What has so many levels each has so many levels in common. -/
theorem exists_nested_forall (h : ∀ d ∈ items, ∃ k, Nested leaf k d) :
    ∃ k, ∀ d ∈ items, Nested leaf k d := by
  induction items with
  | nil => exact ⟨0, List.forall_mem_nil _⟩
  | cons d items ih =>
    obtain ⟨⟨k, hd⟩, hitems⟩ := List.forall_mem_cons.mp h
    obtain ⟨k', hitems⟩ := ih hitems
    refine ⟨max k k', List.forall_mem_cons.mpr ⟨hd.mono (Nat.le_max_left k k'), fun d hd => ?_⟩⟩
    exact (hitems d hd).mono (Nat.le_max_right k k')

theorem nested_list_iff :
    Nested IsLegible (n + 1) (.list items) ↔ ∀ d ∈ items, Nested IsLegible n d := by
  constructor
  · intro h
    cases h with
    | leaf h => exact h.elim
    | list h => exact h
  · exact .list

theorem not_nested_zero_list : ¬ Nested IsLegible 0 (.list items) := by
  intro h
  cases h with
  | leaf h => exact h

theorem not_nested_zero_record {ms : List (String × Datum)} : ¬ Nested IsLegible 0 (.record ms) := by
  intro h
  cases h with
  | leaf h => exact h

/-- The items of a list have one level less. -/
theorem stored_list {xs : List α} {f : α → α}
    (hlegible : ∀ x ∈ xs, ∃ k, Nested IsLegible k (write x))
    (h : ∀ k, n = k + 1 → ∀ x ∈ xs, Stored k read (write x) (f x)) :
    Stored n (toList? read) (.list (xs.map write)) (xs.map f) := by
  refine ⟨?_, fun hnested => ?_, fun y hy => ?_⟩
  · obtain ⟨k, hk⟩ := exists_nested_forall (List.forall_mem_map.mpr hlegible)
    exact ⟨k + 1, .list hk⟩
  · cases n with
    | zero => exact absurd hnested not_nested_zero_list
    | succ k =>
      have hitems := List.forall_mem_map.mp (nested_list_iff.mp hnested)
      rw [seen_list_succ, List.map_map]
      exact mapM_map_eq fun x hx => (h k rfl x hx).read_eq (hitems x hx)
  · cases n with
    | zero =>
      rw [seen_list_zero] at hy
      cases hy
    | succ k =>
      rw [seen_list_succ, List.map_map] at hy
      refine nested_list_iff.mpr (List.forall_mem_map.mpr fun x hx => ?_)
      obtain ⟨y, hy⟩ := exists_of_mapM hy _ (List.mem_map_of_mem hx)
      exact (h k rfl x hx).nested y hy

/-- A list that is left out when it is empty. -/
theorem stored_someList {xs : List α} {f : α → α}
    (hlegible : ∀ x ∈ xs, ∃ k, Nested IsLegible k (write x))
    (h : ∀ k, n = k + 1 → ∀ x ∈ xs, Stored k read (write x) (f x)) :
    StoredMember n (orDefault (toList? read) []) (someList (xs.map write)) (xs.map f) := by
  cases xs with
  | nil => exact ⟨nofun, fun _ => rfl, fun _ _ => nofun⟩
  | cons x xs => exact stored_orDefault (stored_list hlegible h)

/-- What there is room for of a member. -/
def seenMember? (n : Nat) (m : String × Option Datum) : String × Option Datum :=
  (m.1, m.2.map (seen n))

theorem seen_present :
    (record (present os)).seen (n + 1) = record (present (os.map (seenMember? n))) := by
  rw [seen_record_succ, present, present, List.filterMap_map, List.map_filterMap]
  refine congrArg record (List.filterMap_congr fun m _ => ?_)
  cases h : m.2 <;> simp [seenMember?, h]

/-- The levels of a record are those of the members that are there. -/
theorem nested_present_iff :
    Nested IsLegible (n + 1) (record (present os)) ↔ ∀ m ∈ os, ∀ d ∈ m.2, Nested IsLegible n d := by
  have hmembers : (∀ m ∈ present os, Nested IsLegible n m.2) ↔
      ∀ m ∈ os, ∀ d ∈ m.2, Nested IsLegible n d := by
    constructor
    · intro h m hm d hd
      exact h (m.1, d) (List.mem_filterMap.mpr ⟨m, hm, Option.map_eq_some_iff.mpr ⟨d, hd, rfl⟩⟩)
    · intro h m hm
      obtain ⟨m', hm', hpresent⟩ := List.mem_filterMap.mp hm
      obtain ⟨d, hd, rfl⟩ := Option.map_eq_some_iff.mp hpresent
      exact h m' hm' d hd
  rw [← hmembers]
  constructor
  · intro h
    cases h with
    | leaf h => exact h.elim
    | record h => exact h
  · exact .record

theorem exists_nested_present (h : ∀ m ∈ os, ∀ d ∈ m.2, ∃ k, Nested IsLegible k d) :
    ∃ k, Nested IsLegible k (record (present os)) := by
  have hmembers : ∀ d ∈ (present os).map Prod.snd, ∃ k, Nested IsLegible k d := by
    refine List.forall_mem_map.mpr fun m hm => ?_
    obtain ⟨m', hm', hpresent⟩ := List.mem_filterMap.mp hm
    obtain ⟨d, hd, rfl⟩ := Option.map_eq_some_iff.mp hpresent
    exact h m' hm' d hd
  obtain ⟨k, hk⟩ := exists_nested_forall hmembers
  exact ⟨k + 1, .record fun m hm => hk m.2 (List.mem_map_of_mem hm)⟩

/-- A record has one level more than its members, and without room for it nothing can be read. -/
theorem stored_record (hlegible : ∀ m ∈ os, ∀ d ∈ m.2, ∃ k, Nested IsLegible k d)
    (hnone : read .unreadable = none)
    (hread : ∀ k, n = k + 1 → (∀ m ∈ os, ∀ d ∈ m.2, Nested IsLegible k d) →
      read (record (present (os.map (seenMember? k)))) = some x)
    (hnested : ∀ k y, n = k + 1 → read (record (present (os.map (seenMember? k)))) = some y →
      ∀ m ∈ os, ∀ d ∈ m.2, Nested IsLegible k d) :
    Stored n read (record (present os)) x := by
  refine ⟨exists_nested_present hlegible, fun h => ?_, fun y hy => ?_⟩
  · cases n with
    | zero => exact absurd h not_nested_zero_record
    | succ k =>
      rw [seen_present]
      exact hread k rfl (nested_present_iff.mp h)
  · cases n with
    | zero =>
      rw [seen_record_zero, hnone] at hy
      cases hy
    | succ k =>
      rw [seen_present] at hy
      exact nested_present_iff.mpr (hnested k y rfl hy)

end Datum

/-! ## Fields -/

variable {n : Nat}

theorem SelectOption.stored (o : SelectOption) : Stored n ofDatum? o.toDatum o := by
  cases n with
  | zero =>
    refine ⟨⟨1, o.restored.1.isLegible⟩, fun h => absurd h not_nested_zero_record, fun y hy => ?_⟩
    rw [toDatum, seen_record_zero] at hy
    cases hy
  | succ k => exact o.restored.stored

/-- A list of texts takes a level, also when it is empty. -/
theorem Value.stored (v : Value) : Stored n ofDatum? v.toDatum v := by
  cases v with
  | scalar token => exact (restored_scalar token).stored
  | list tokens =>
    cases n with
    | zero =>
      have hnested : Nested IsWritten 1 (toDatum (.list tokens)) := (restored_list tokens).1
      refine ⟨⟨1, hnested.isLegible⟩, fun h => absurd h not_nested_zero_list, fun y hy => ?_⟩
      rw [toDatum, ofTexts, seen_list_zero] at hy
      cases hy
    | succ k => exact (restored_list tokens).stored

namespace Field

/-- A position is a number of thirty-two bits. -/
def Legible (f : Field) : Prop := -Int.pow 2 31 ≤ f.position ∧ f.position ≤ Int.pow 2 31 - 1

theorem ofDatum?_record {name type label hint description isRequired readonly position multiselect
    options value : Option Datum} :
    ofDatum? (record (present [("name", name), ("type", type), ("label", label), ("hint", hint),
      ("description", description), ("is_required", isRequired), ("readonly", readonly),
      ("position", position), ("multiselect", multiselect), ("options", options),
      ("value", value)])) = (do
    let name ← name.bind toText?
    let type ← orDefault FieldType.ofDatum? .text type
    let label ← optionally toText? label
    let hint ← optionally toText? hint
    let description ← optionally toText? description
    let isRequired ← orDefault toBool? false isRequired
    let readonly ← orDefault toBool? false readonly
    let position ← orDefault (toInt? (-Int.pow 2 31) (Int.pow 2 31 - 1)) 0 position
    let multiselect ← orDefault toBool? false multiselect
    let options ← orDefault (toList? SelectOption.ofDatum?) [] options
    let defaultValue ← optionally Value.ofDatum? value
    some ⟨name, type, label, hint, description, isRequired, readonly, position, multiselect, options,
      defaultValue⟩) := by
  rw [ofDatum?, readWith]
  generalize toInt? (-Int.pow 2 31) (Int.pow 2 31 - 1) = inBounds?
  simp

theorem stored {f : Field} (h : f.Legible) : Stored n ofDatum? f.toDatum f := by
  have hname (k : Nat) := (kept_text (n := k) f.name).stored
  have htype (k : Nat) : StoredMember k (orDefault FieldType.ofDatum? .text) _ f.type :=
    (kept_orDefault f.type.restored).stored
  have hlabel (k : Nat) := (kept_text? (n := k) f.label).stored
  have hhint (k : Nat) := (kept_text? (n := k) f.hint).stored
  have hdescription (k : Nat) := (kept_text? (n := k) f.description).stored
  have hrequired (k : Nat) := (kept_bool (n := k) f.isRequired false).stored
  have hreadonly (k : Nat) := (kept_bool (n := k) f.readonly false).stored
  have hposition (k : Nat) :
      StoredMember k (orDefault (toInt? (-Int.pow 2 31) (Int.pow 2 31 - 1)) 0) _ f.position :=
    (kept_orDefault (restored_ofInt h ⟨by decide, by decide⟩ ⟨by decide, by decide⟩)).stored
  have hmultiselect (k : Nat) := (kept_bool (n := k) f.multiselect false).stored
  have hoptions (k : Nat) : StoredMember k (orDefault (toList? SelectOption.ofDatum?) [])
      (someList (f.options.map SelectOption.toDatum)) (f.options.map id) :=
    stored_someList (fun o _ => ⟨1, o.restored.1.isLegible⟩) fun _ _ o _ => o.stored
  have hvalue (k : Nat) : StoredMember k (optionally Value.ofDatum?)
      (f.defaultValue.map Value.toDatum) (f.defaultValue.map id) := by
    refine stored_optionally (fun v _ => v.stored) fun v _ => ?_
    cases v with
    | scalar token => rw [Value.toDatum, seen_text]; rfl
    | list tokens => exact isAbsent?_seen_list
  rw [toDatum_eq]
  refine stored_record ?_ rfl (fun k _ hall => ?_) fun k y _ hy => ?_
  · simp only [List.forall_mem_cons]
    exact ⟨(hname 0).legible, (htype 0).legible, (hlabel 0).legible, (hhint 0).legible,
      (hdescription 0).legible, (hrequired 0).legible, (hreadonly 0).legible,
      (hposition 0).legible, (hmultiselect 0).legible, (hoptions 0).legible, (hvalue 0).legible,
      List.forall_mem_nil _⟩
  · simp only [List.forall_mem_cons] at hall
    obtain ⟨h1, h2, h3, h4, h5, h6, h7, h8, h9, h10, h11, -⟩ := hall
    simp only [List.map_cons, List.map_nil, seenMember?, ofDatum?_record, Option.bind_eq_bind,
      Option.bind_some, (hname k).read_eq h1, (htype k).read_eq h2, (hlabel k).read_eq h3,
      (hhint k).read_eq h4, (hdescription k).read_eq h5, (hrequired k).read_eq h6,
      (hreadonly k).read_eq h7, (hposition k).read_eq h8, (hmultiselect k).read_eq h9,
      (hoptions k).read_eq h10, (hvalue k).read_eq h11, List.map_id, Option.map_id, id]
  · simp only [List.map_cons, List.map_nil, seenMember?, ofDatum?_record, Option.bind_eq_bind,
      Option.bind_eq_some_iff] at hy
    obtain ⟨_, h1, _, h2, _, h3, _, h4, _, h5, _, h6, _, h7, _, h8, _, h9, _, h10, _, h11, -⟩ := hy
    simp only [List.forall_mem_cons]
    exact ⟨(hname k).nested _ (Option.bind_eq_some_iff.mpr h1), (htype k).nested _ h2,
      (hlabel k).nested _ h3, (hhint k).nested _ h4, (hdescription k).nested _ h5,
      (hrequired k).nested _ h6, (hreadonly k).nested _ h7, (hposition k).nested _ h8,
      (hmultiselect k).nested _ h9, (hoptions k).nested _ h10, (hvalue k).nested _ h11,
      List.forall_mem_nil _⟩

end Field
/-! ## Calls and forms -/

/-- What is read of a value that is carried along: nothing at all is read as no value. -/
def Datum.reread? : Datum → Option Datum
  | .null => none
  | d => some (d.seen Json.maxDepth).sorted

theorem Datum.reread?_of_ne_null {d : Datum} (h : d ≠ .null) :
    d.reread? = some (d.seen Json.maxDepth).sorted := by
  cases d with
  | null => exact absurd rfl h
  | _ => rfl

/-- What is read of a value says that there is none for null alone. -/
theorem Datum.isAbsent?_seen {d : Datum} {k : Nat} (h : Nested IsLegible k d) (hne : d ≠ .null) :
    (d.seen n).isAbsent? = some false := by
  cases h with
  | leaf h =>
    cases d with
    | null => exact absurd rfl hne
    | number v =>
      obtain ⟨v', hv⟩ := h
      rw [seen_number, seenNumber, hv]
      rfl
    | bool b => rw [seen_bool]; rfl
    | text s => rw [seen_text]; rfl
    | _ => exact h.elim
  | list _ => exact isAbsent?_seen_list
  | record _ => exact isAbsent?_seen_record

/-- A value that is carried along is read if there is room for it. -/
theorem Datum.stored_verbatim {state : Option Datum} (hn : n ≤ Json.maxDepth)
    (h : ∀ d ∈ state, ∃ k, Nested IsLegible k d) :
    StoredMember n (optionally verbatim?) state (state.bind reread?) := by
  cases state with
  | none => exact ⟨nofun, fun _ => rfl, fun _ _ => nofun⟩
  | some d =>
    obtain ⟨k, hk⟩ := h d rfl
    by_cases hne : d = .null
    · subst hne
      have hnull : Kept n (optionally verbatim?) (some .null) none :=
        ⟨fun d hd => Option.some.inj hd ▸ .leaf trivial, rfl⟩
      exact hnull.stored
    · have hread : optionally verbatim? ((some d).map (seen n)) =
          ((d.seen n).settled?.map sorted).map some := by
        rw [← hk.isRead_seen.resolved?_eq_settled?, ← verbatim?, Option.map_some]
        simp [optionally, isAbsent?_seen hk hne]
      refine ⟨h, fun hd => ?_, fun y hy _ hd => ?_⟩
      · have hnested : Nested IsLegible n d := hd d rfl
        have hsettled : (d.seen n).settled? = some (d.seen n) :=
          hk.isRead_seen.settled?_eq_some_iff.mpr ⟨rfl, hnested.isResolved_seen⟩
        rw [hread, hsettled, Option.bind_some, reread?_of_ne_null hne, hnested.seen_eq_of_le hn]
        rfl
      · rw [hread] at hy
        obtain ⟨sorted, hsorted, -⟩ := Option.map_eq_some_iff.mp hy
        obtain ⟨d', hsettled, -⟩ := Option.map_eq_some_iff.mp hsorted
        obtain ⟨-, hresolved⟩ := hk.isRead_seen.settled?_eq_some_iff.mp hsettled
        exact Option.some.inj hd ▸ hk.of_seen hresolved

namespace Call

/-- What is carried along can be read, if there is room for it. -/
def Legible (c : Call) : Prop := ∀ d ∈ c.state, ∃ k, Nested IsLegible k d

/-- What is read of a call that was written. -/
def reread (c : Call) : Call := { c with state := c.state.bind Datum.reread? }

theorem ofDatum?_record {path state : Option Datum} :
    ofDatum? (record (present [("path", path), ("state", state)])) = (do
    let path ← path.bind toText?
    let state ← optionally verbatim? state
    some ⟨path, state⟩) := by
  simp [ofDatum?]

theorem stored {c : Call} (hn : n ≤ Json.maxDepth) (h : c.Legible) :
    Stored n ofDatum? c.toDatum c.reread := by
  have hpath (k : Nat) := (kept_text (n := k) c.path).stored
  have hstate (k : Nat) (hk : k ≤ Json.maxDepth) := stored_verbatim hk h
  rw [toDatum_eq]
  refine stored_record ?_ rfl (fun k hk hall => ?_) fun k y hk hy => ?_
  · simp only [List.forall_mem_cons]
    exact ⟨(hpath 0).legible, h, List.forall_mem_nil _⟩
  · simp only [List.forall_mem_cons] at hall
    obtain ⟨h1, h2, -⟩ := hall
    simp only [List.map_cons, List.map_nil, seenMember?, ofDatum?_record, Option.bind_eq_bind,
      Option.bind_some, (hpath k).read_eq h1, (hstate k (by omega)).read_eq h2, reread]
  · simp only [List.map_cons, List.map_nil, seenMember?, ofDatum?_record, Option.bind_eq_bind,
      Option.bind_eq_some_iff] at hy
    obtain ⟨_, h1, _, h2, -⟩ := hy
    simp only [List.forall_mem_cons]
    exact ⟨(hpath k).nested _ (Option.bind_eq_some_iff.mpr h1),
      (hstate k (by omega)).nested _ h2, List.forall_mem_nil _⟩

/-- A call is stored as an optional member. -/
theorem stored_optionally {call : Option Call} (hn : n ≤ Json.maxDepth)
    (h : ∀ c ∈ call, c.Legible) :
    StoredMember n (optionally ofDatum?) (call.map toDatum) (call.map reread) :=
  Datum.stored_optionally (fun c hc => stored hn (h c hc)) fun _ _ => isAbsent?_seen_record

end Call

namespace Form

/-- The positions of the fields are numbers of thirty-two bits, and what the call carries along can
be read, if there is room for it. -/
def Legible (f : Form) : Prop := (∀ field ∈ f.fields, field.Legible) ∧ ∀ c ∈ f.call, c.Legible

/-- What is read of a form that was written. -/
def reread (f : Form) : Form := { f with call := f.call.map Call.reread }

theorem ofDatum?_record {title fields call : Option Datum} :
    ofDatum? (record (present [("title", title), ("fields", fields), ("call", call)])) = (do
    let title ← optionally toText? title
    let fields ← orDefault (toList? Field.ofDatum?) [] fields
    let call ← optionally Call.ofDatum? call
    some ⟨title, fields, call⟩) := by
  simp [ofDatum?, readWith]

theorem stored {f : Form} (hn : n ≤ Json.maxDepth) (h : f.Legible) :
    Stored n ofDatum? f.toDatum f.reread := by
  obtain ⟨hfields, hcall⟩ := h
  have htitle (k : Nat) := (kept_text? (n := k) f.title).stored
  have hfields (k : Nat) : StoredMember k (orDefault (toList? Field.ofDatum?) [])
      (some (.list (f.fields.map Field.toDatum))) (f.fields.map id) :=
    stored_orDefault (stored_list
      (fun field hfield => (Field.stored (n := 0) (hfields field hfield)).legible)
      fun _ _ field hfield => Field.stored (hfields field hfield))
  have hcall (k : Nat) (hk : k ≤ Json.maxDepth) := Call.stored_optionally hk hcall
  rw [toDatum_eq]
  refine stored_record ?_ rfl (fun k hk hall => ?_) fun k y hk hy => ?_
  · simp only [List.forall_mem_cons]
    exact ⟨(htitle 0).legible, (hfields 0).legible, (hcall 0 (Nat.zero_le _)).legible,
      List.forall_mem_nil _⟩
  · simp only [List.forall_mem_cons] at hall
    obtain ⟨h1, h2, h3, -⟩ := hall
    simp only [List.map_cons, List.map_nil, seenMember?, ofDatum?_record, Option.bind_eq_bind,
      Option.bind_some, (htitle k).read_eq h1, (hfields k).read_eq h2,
      (hcall k (by omega)).read_eq h3, reread, List.map_id]
  · simp only [List.map_cons, List.map_nil, seenMember?, ofDatum?_record, Option.bind_eq_bind,
      Option.bind_eq_some_iff] at hy
    obtain ⟨_, h1, _, h2, _, h3, -⟩ := hy
    simp only [List.forall_mem_cons]
    exact ⟨(htitle k).nested _ h1, (hfields k).nested _ h2, (hcall k (by omega)).nested _ h3,
      List.forall_mem_nil _⟩

end Form

/-! ## Bindings -/

namespace Binding

mutual

/-- The positions of all fields in the tree are numbers of thirty-two bits, and what its calls carry
along can be read, if there is room for it. -/
def Legible : Binding → Prop
  | ⟨_, _, _, _, _, _, call, form, bindings⟩ =>
    (∀ c ∈ call, c.Legible) ∧ (∀ f ∈ form, f.Legible) ∧ AllLegible bindings

/-- So it is in several trees. -/
def AllLegible : List Binding → Prop
  | [] => True
  | b :: bs => Legible b ∧ AllLegible bs

end

theorem allLegible_iff {bs : List Binding} : AllLegible bs ↔ ∀ b ∈ bs, b.Legible := by
  induction bs with
  | nil => exact iff_of_true trivial fun b hb => absurd hb List.not_mem_nil
  | cons b bs ih => rw [AllLegible, ih, List.forall_mem_cons]

theorem legible_iff {b : Binding} : b.Legible ↔
    (∀ c ∈ b.call, c.Legible) ∧ (∀ f ∈ b.form, f.Legible) ∧ ∀ c ∈ b.bindings, c.Legible := by
  cases b
  rw [Legible, allLegible_iff]

mutual

/-- What is read of a tree that was written. -/
def reread : Binding → Binding
  | ⟨appId, label, location, icon, hint, description, call, form, bindings⟩ =>
    ⟨appId, label, location, icon, hint, description, call.map Call.reread, form.map Form.reread,
      rereadAll bindings⟩

/-- What is read of several trees. -/
def rereadAll : List Binding → List Binding
  | [] => []
  | b :: bs => reread b :: rereadAll bs

end

theorem rereadAll_eq_map {bs : List Binding} : rereadAll bs = bs.map reread := by
  induction bs with
  | nil => rfl
  | cons b bs ih => rw [rereadAll, ih, List.map_cons]

theorem reread_eq (b : Binding) : b.reread =
    { b with
      call := b.call.map Call.reread, form := b.form.map Form.reread,
      bindings := b.bindings.map reread } := by
  cases b
  rw [reread, rereadAll_eq_map]

theorem ofDatum?_record {appId label location icon hint description call form bindings :
    Option Datum} :
    ofDatum? (record (present [("app_id", appId), ("label", label), ("location", location),
      ("icon", icon), ("hint", hint), ("description", description), ("call", call), ("form", form),
      ("bindings", bindings)])) = (do
    let appId ← orDefault toText? "" appId
    let label ← label.bind toText?
    let location ← orDefault toText? "" location
    let icon ← optionally toText? icon
    let hint ← optionally toText? hint
    let description ← optionally toText? description
    let call ← optionally Call.ofDatum? call
    let form ← optionally Form.ofDatum? form
    let bindings ← orDefault listOfDatum? [] bindings
    some ⟨appId, label, location, icon, hint, description, call, form, bindings⟩) := by
  rw [ofDatum?_eq]
  simp

/-- A tree is read if the trees below it are, at whatever level they stand. -/
theorem stored_of_bindings {b : Binding} (hn : n ≤ Json.maxDepth) (h : b.Legible)
    (hbelow : ∀ c ∈ b.bindings, ∀ k ≤ Json.maxDepth, Stored k ofDatum? c.toDatum c.reread) :
    Stored n ofDatum? b.toDatum b.reread := by
  obtain ⟨hcalls, hforms, -⟩ := legible_iff.mp h
  have happ (k : Nat) := (kept_text_orDefault (n := k) b.appId "").stored
  have hlabel (k : Nat) := (kept_text (n := k) b.label).stored
  have hlocation (k : Nat) := (kept_text_orDefault (n := k) b.location "").stored
  have hicon (k : Nat) := (kept_text? (n := k) b.icon).stored
  have hhint (k : Nat) := (kept_text? (n := k) b.hint).stored
  have hdescription (k : Nat) := (kept_text? (n := k) b.description).stored
  have hcall (k : Nat) (hk : k ≤ Json.maxDepth) := Call.stored_optionally hk hcalls
  have hform (k : Nat) (hk : k ≤ Json.maxDepth) :
      StoredMember k (optionally Form.ofDatum?) (b.form.map Form.toDatum) (b.form.map Form.reread) :=
    stored_optionally (fun f hf => Form.stored hk (hforms f hf)) fun _ _ => isAbsent?_seen_record
  have hbindings (k : Nat) (hk : k ≤ Json.maxDepth) : StoredMember k (orDefault listOfDatum? [])
      (someList (b.bindings.map toDatum)) (b.bindings.map reread) :=
    stored_someList (fun c hc => (hbelow c hc 0 (Nat.zero_le _)).legible)
      fun j hj c hc => hbelow c hc j (by omega)
  rw [toDatum_eq, reread_eq]
  refine stored_record ?_ ?_ (fun k hk hall => ?_) fun k y hk hy => ?_
  · simp only [List.forall_mem_cons]
    exact ⟨(happ 0).legible, (hlabel 0).legible, (hlocation 0).legible, (hicon 0).legible,
      (hhint 0).legible, (hdescription 0).legible, (hcall 0 (Nat.zero_le _)).legible,
      (hform 0 (Nat.zero_le _)).legible, (hbindings 0 (Nat.zero_le _)).legible,
      List.forall_mem_nil _⟩
  · rw [ofDatum?_eq]
    rfl
  · simp only [List.forall_mem_cons] at hall
    obtain ⟨h1, h2, h3, h4, h5, h6, h7, h8, h9, -⟩ := hall
    simp only [List.map_cons, List.map_nil, seenMember?, ofDatum?_record, Option.bind_eq_bind,
      Option.bind_some, (happ k).read_eq h1, (hlabel k).read_eq h2, (hlocation k).read_eq h3,
      (hicon k).read_eq h4, (hhint k).read_eq h5, (hdescription k).read_eq h6,
      (hcall k (by omega)).read_eq h7, (hform k (by omega)).read_eq h8,
      (hbindings k (by omega)).read_eq h9]
  · simp only [List.map_cons, List.map_nil, seenMember?, ofDatum?_record, Option.bind_eq_bind,
      Option.bind_eq_some_iff] at hy
    obtain ⟨_, h1, _, h2, _, h3, _, h4, _, h5, _, h6, _, h7, _, h8, _, h9, -⟩ := hy
    simp only [List.forall_mem_cons]
    exact ⟨(happ k).nested _ h1, (hlabel k).nested _ (Option.bind_eq_some_iff.mpr h2),
      (hlocation k).nested _ h3, (hicon k).nested _ h4, (hhint k).nested _ h5,
      (hdescription k).nested _ h6, (hcall k (by omega)).nested _ h7,
      (hform k (by omega)).nested _ h8, (hbindings k (by omega)).nested _ h9,
      List.forall_mem_nil _⟩

/-- A binding is read exactly if there is room for its document. -/
theorem stored (b : Binding) (h : b.Legible) {n : Nat} (hn : n ≤ Json.maxDepth) :
    Stored n ofDatum? b.toDatum b.reread :=
  stored_of_bindings hn h fun c hc _ hk => stored c ((legible_iff.mp h).2.2 c hc) hk
termination_by sizeOf b
decreasing_by
  have hchild := List.sizeOf_lt_of_mem hc
  have hself : sizeOf b.bindings < sizeOf b := by
    cases b
    simp +arith
  omega

end Binding

/-! ## Packages -/

namespace BindingPackage

/-- What is read of a package that was written. -/
def reread (p : BindingPackage) : BindingPackage :=
  { p with bindings := p.bindings.map Binding.reread }

/-- The bindings of a package stand in a list in a record. -/
theorem nested_iff {p : BindingPackage} :
    Nested IsLegible (n + 2) p.toDatum ↔ ∀ b ∈ p.bindings, Nested IsLegible n b.toDatum := by
  have htext (o : Option String) : ∀ d ∈ o.map text, Nested IsLegible (n + 1) d := by
    cases o with
    | none => exact nofun
    | some s => exact fun d hd => Option.some.inj hd ▸ .leaf trivial
  have hnull (o : Option String) : Nested IsLegible (n + 1) ((o.map text).getD .null) := by
    cases o <;> exact .leaf trivial
  rw [toDatum_eq, nested_present_iff]
  simp only [List.forall_mem_cons, Option.mem_def, Option.some.injEq, forall_eq', nested_list_iff,
    List.forall_mem_map]
  exact ⟨fun h => h.2.2.2.2.2.1, fun h => ⟨htext _, .leaf trivial, hnull _, hnull _, .leaf trivial,
    h, List.forall_mem_nil _⟩⟩

theorem ofDatum?_record {contractVersion version name description generatedAt bindings :
    Option Datum} :
    ofDatum? (record (present [("contract_version", contractVersion), ("version", version),
      ("name", name), ("description", description), ("generated_at", generatedAt),
      ("bindings", bindings)])) = (do
    let contractVersion ← optionally toText? contractVersion
    let version ← version.bind toText?
    let name ← optionally toText? name
    let description ← optionally toText? description
    let generatedAt ← generatedAt.bind toText?
    let bindings ← bindings.bind Binding.listOfDatum?
    some ⟨contractVersion, version, name, description, generatedAt, bindings⟩) := by
  simp [ofDatum?]

/-- A package is read exactly if there is room for its document. -/
theorem stored {p : BindingPackage} (hn : n ≤ Json.maxDepth) (h : ∀ b ∈ p.bindings, b.Legible) :
    Stored n ofDatum? p.toDatum p.reread := by
  have hcontract (k : Nat) := (kept_text? (n := k) p.contractVersion).stored
  have hversion (k : Nat) := (kept_text (n := k) p.version).stored
  have hname (k : Nat) := (kept_textOrNull (n := k) p.name).stored
  have hdescription (k : Nat) := (kept_textOrNull (n := k) p.description).stored
  have hgenerated (k : Nat) := (kept_text (n := k) p.generatedAt).stored
  have hbindings (k : Nat) (hk : k ≤ Json.maxDepth) : StoredMember k (·.bind Binding.listOfDatum?)
      (some (.list (p.bindings.map Binding.toDatum))) (p.bindings.map Binding.reread) :=
    stored_required (stored_list (fun b hb => (b.stored (h b hb) (Nat.zero_le _)).legible)
      fun j hj b hb => b.stored (h b hb) (by omega))
  rw [toDatum_eq]
  refine stored_record ?_ rfl (fun k hk hall => ?_) fun k y hk hy => ?_
  · simp only [List.forall_mem_cons]
    exact ⟨(hcontract 0).legible, (hversion 0).legible, (hname 0).legible,
      (hdescription 0).legible, (hgenerated 0).legible, (hbindings 0 (Nat.zero_le _)).legible,
      List.forall_mem_nil _⟩
  · simp only [List.forall_mem_cons] at hall
    obtain ⟨h1, h2, h3, h4, h5, h6, -⟩ := hall
    simp only [List.map_cons, List.map_nil, seenMember?, ofDatum?_record, Option.bind_eq_bind,
      Option.bind_some, (hcontract k).read_eq h1, (hversion k).read_eq h2, (hname k).read_eq h3,
      (hdescription k).read_eq h4, (hgenerated k).read_eq h5, (hbindings k (by omega)).read_eq h6,
      reread]
  · simp only [List.map_cons, List.map_nil, seenMember?, ofDatum?_record, Option.bind_eq_bind,
      Option.bind_eq_some_iff] at hy
    obtain ⟨_, h1, _, h2, _, h3, _, h4, _, h5, _, h6, -⟩ := hy
    simp only [List.forall_mem_cons]
    exact ⟨(hcontract k).nested _ h1, (hversion k).nested _ (Option.bind_eq_some_iff.mpr h2),
      (hname k).nested _ h3, (hdescription k).nested _ h4,
      (hgenerated k).nested _ (Option.bind_eq_some_iff.mpr h5),
      (hbindings k (by omega)).nested _ (Option.bind_eq_some_iff.mpr h6), List.forall_mem_nil _⟩

end BindingPackage

end SlashCommand
