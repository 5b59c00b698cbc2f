import SlashCommand.Proofs.Datum.Nesting
import Mathlib.Data.List.Nodup

/-!
# The members of a record, read and written again

Reading a value of some type from a document of JSON says where the value comes from (`Occurs`), and
writing it should give a document that is nested no deeper and reads as the same value (`Restored`).
Records are taken apart and put together by their members: what was read of a member comes from a
document with one level less (`levels_of_members?`), and a member that is written again has to be
`Kept`, which is said of each of the ways to read one.  A record of kept members can be read
(`members?_present`, `find?_present_cons`).
-/

namespace SlashCommand.Datum

variable {α : Type} {n k : Nat} {d : Datum} {key : String} {keys : List String}
  {ms : List (String × Datum)} {os : List (String × Option Datum)} {read : Datum → Option α}
  {write : α → Datum} {x : α}

/-! ## Writing members -/

/-- The members that are there. -/
def present (os : List (String × Option Datum)) : List (String × Datum) :=
  os.filterMap fun m => m.2.map (m.1, ·)

/-- A list that is left out when it is empty. -/
def someList : List Datum → Option Datum
  | [] => none
  | items => some (.list items)

theorem member_eq_present (key : String) (d : Datum) : member key d = present [(key, some d)] := rfl

theorem member?_eq_present (key : String) (o : Option Datum) : member? key o = present [(key, o)] := by
  cases o <;> rfl

theorem memberList_eq_present (key : String) (items : List Datum) :
    memberList key items = present [(key, someList items)] := by
  cases items <;> rfl

theorem present_append (os os' : List (String × Option Datum)) :
    present os ++ present os' = present (os ++ os') := (List.filterMap_append ..).symm

@[simp] theorem find?_present_nil : find? key (present []) = none := rfl

@[simp] theorem find?_present_cons (key' : String) (o : Option Datum) :
    find? key (present ((key', o) :: os)) =
      if key' = key then o.or (find? key (present os)) else find? key (present os) := by
  cases o with
  | none => simp [present]
  | some d => by_cases h : key' = key <;> simp [present, find?, h]

/-- The members that are there have the keys that they were given. -/
theorem fst_present_sublist (os : List (String × Option Datum)) :
    ((present os).map Prod.fst).Sublist (os.map Prod.fst) := by
  induction os with
  | nil => exact .slnil
  | cons m os ih =>
    obtain ⟨key, o⟩ := m
    cases o with
    | none => exact .cons _ ih
    | some d => exact .cons_cons _ ih

@[simp] theorem members?_present (h : (os.map Prod.fst).Nodup) :
    (record (present os)).members? keys = some (present os) := by
  have hnodup := h.sublist (fst_present_sublist os)
  rw [members?, members?.unrepeated, if_pos]
  refine List.all_eq_true.mpr fun key _ => decide_eq_true ?_
  have hcount := List.nodup_iff_count_le_one.mp hnodup key
  rwa [List.count, List.countP_map] at hcount

/-- A record is one level deeper than its members. -/
theorem nested_present (h : ∀ m ∈ os, ∀ d ∈ m.2, Nested IsWritten n d) :
    Nested IsWritten (n + 1) (record (present os)) := by
  refine .record fun m hm => ?_
  obtain ⟨m', hm', hpresent⟩ := List.mem_filterMap.mp hm
  obtain ⟨d, hd, rfl⟩ := Option.map_eq_some_iff.mp hpresent
  exact h m' hm' d hd

/-! ## Reading members -/

/-- The value is read from a document with at most `n` levels. -/
def Occurs (n : Nat) (read : Datum → Option α) (x : α) : Prop :=
  ∃ d, Nested IsRead n d ∧ read d = some x

/-- The value is written as a document with at most `n` levels, which is read as the value. -/
def Restored (n : Nat) (read : Datum → Option α) (write : α → Datum) (x : α) : Prop :=
  Nested IsWritten n (write x) ∧ read (write x) = some x

/-- The members of a record of a JSON text are its own, or the items of a list in its place. -/
theorem members?_cases (hd : Nested IsRead n d) (h : d.members? keys = some ms) :
    d = .record ms ∨ ∃ items, d = .list items ∧ ∀ m ∈ ms, m.2 ∈ items := by
  cases d with
  | record ms' =>
    simp only [members?, members?.unrepeated, Option.ite_none_right_eq_some, Option.some.injEq] at h
    obtain ⟨-, rfl⟩ := h
    exact .inl rfl
  | list items =>
    simp only [members?, Option.ite_none_right_eq_some, Option.some.injEq] at h
    obtain ⟨-, rfl⟩ := h
    exact .inr ⟨items, rfl, fun m hm => (List.of_mem_zip hm).2⟩
  | mapping es =>
    cases hd with
    | leaf h => exact absurd h (by rintro (h | h) <;> cases h)
  | _ => cases h

/-- What a record of any form holds has one level less. -/
theorem levels_of_members? (hd : Nested IsRead n d) (h : d.members? keys = some ms) :
    ∃ k, n = k + 1 ∧ ∀ m ∈ ms, Nested IsRead k m.2 := by
  rcases members?_cases hd h with rfl | ⟨items, rfl, hitems⟩
  · exact hd.of_record
  · obtain ⟨k, rfl, hlevels⟩ := hd.of_list
    exact ⟨k, rfl, fun m hm => hlevels m.2 (hitems m hm)⟩

section Members

variable {P : Datum → Prop} (hms : ∀ m ∈ ms, P m.2)

include hms

theorem of_find? (h : find? key ms = some d) : P d := by
  obtain ⟨m, hm, rfl⟩ := Option.map_eq_some_iff.mp h
  exact hms m (List.mem_of_find?_eq_some hm)

/-- What is read of a member is read from something that all members are. -/
theorem exists_of_required (h : required ms key read = some x) : ∃ d, P d ∧ read d = some x := by
  obtain ⟨d, hd, hread⟩ := Option.bind_eq_some_iff.mp h
  exact ⟨d, of_find? hms hd, hread⟩

theorem exists_of_defaulted {default : α} (h : defaulted ms key read default = some x) :
    x = default ∨ ∃ d, P d ∧ read d = some x := by
  rw [defaulted] at h
  split at h
  · cases h
    exact .inl rfl
  · next d hd => exact .inr ⟨d, of_find? hms hd, h⟩

/-- What is read of an optional member is not read from null. -/
theorem exists_of_optional {o : Option α} (h : optional ms key read = some o) :
    ∀ x ∈ o, ∃ d, P d ∧ d ≠ .null ∧ read d = some x := by
  rintro x rfl
  rw [optional] at h
  split at h
  · cases h
  · next d hd =>
    obtain ⟨absent, habsent, hrest⟩ := Option.bind_eq_some_iff.mp h
    cases absent with
    | true => cases hrest
    | false =>
      obtain ⟨x', hread, hx⟩ := Option.map_eq_some_iff.mp hrest
      cases hx
      refine ⟨d, of_find? hms hd, ?_, hread⟩
      rintro rfl
      cases habsent

end Members

theorem occurs_of_optional {o : Option α} (hms : ∀ m ∈ ms, Nested IsRead n m.2)
    (h : optional ms key read = some o) : ∀ x ∈ o, Occurs n read x := fun x hx =>
  let ⟨d, hd, _, hread⟩ := exists_of_optional hms h x hx
  ⟨d, hd, hread⟩

/-- The items of a list have one level less. -/
theorem occurs_of_toList? {xs : List α} (h : Occurs n (toList? read) xs) :
    ∃ k, n = k + 1 ∧ ∀ x ∈ xs, Occurs k read x := by
  obtain ⟨d, hd, hread⟩ := h
  obtain ⟨items, hitems, hxs⟩ := Option.bind_eq_some_iff.mp hread
  cases d with
  | list items' =>
    cases hitems
    obtain ⟨k, rfl, hlevels⟩ := hd.of_list
    refine ⟨k, rfl, fun x hx => ?_⟩
    obtain ⟨d, hd, hread⟩ := exists_mem_of_mapM hxs x hx
    exact ⟨d, hlevels d hd, hread⟩
  | _ => cases hitems

theorem toList?_map {xs : List α} (h : ∀ x ∈ xs, read (write x) = some x) :
    toList? read (.list (xs.map write)) = some xs := mapM_map h

/-! ## Kept members -/

/-- A member is written with at most `n` levels, and read as the value. -/
def Kept (n : Nat) (read : Option Datum → Option α) (o : Option Datum) (x : α) : Prop :=
  (∀ d ∈ o, Nested IsWritten n d) ∧ read o = some x

/-- Reads an optional member. -/
def optionally (read : Datum → Option α) : Option Datum → Option (Option α)
  | none => some none
  | some d => do if ← d.isAbsent? then some none else (read d).map some

/-- Reads a member with a default. -/
def orDefault (read : Datum → Option α) (default : α) : Option Datum → Option α
  | none => some default
  | some d => read d

@[simp] theorem required_eq : required ms key read = (find? key ms).bind read := rfl

@[simp] theorem optional_eq : optional ms key read = optionally read (find? key ms) := by
  rw [optional]
  cases find? key ms <;> rfl

@[simp] theorem defaulted_eq {default : α} :
    defaulted ms key read default = orDefault read default (find? key ms) := by
  rw [defaulted]
  cases find? key ms <;> rfl

theorem kept_required (h : Restored n read write x) : Kept n (·.bind read) (some (write x)) x :=
  ⟨fun d hd => by cases hd; exact h.1, h.2⟩

theorem kept_orDefault {default : α} (h : Restored n read write x) :
    Kept n (orDefault read default) (some (write x)) x :=
  ⟨fun d hd => by cases hd; exact h.1, h.2⟩

theorem kept_optionally {o : Option α} (h : ∀ x ∈ o, Restored n read write x)
    (habsent : ∀ x ∈ o, (write x).isAbsent? = some false) :
    Kept n (optionally read) (o.map write) o := by
  cases o with
  | none => exact ⟨fun d hd => (nomatch hd), rfl⟩
  | some x =>
    refine ⟨fun d hd => ?_, ?_⟩
    · cases hd
      exact (h x rfl).1
    · simp [optionally, habsent x rfl, (h x rfl).2]

theorem restored_text (s : String) : Restored n toText? .text s := ⟨.leaf trivial, rfl⟩

theorem bounds_of_toInt? {low high i : Int} (h : toInt? low high d = some i) :
    low ≤ i ∧ i ≤ high := by
  rw [toInt?] at h
  split at h
  · split at h
    · next hbounds =>
      cases h
      exact hbounds
    · cases h
  · cases h

theorem restored_ofInt {low high i : Int} (h : low ≤ i ∧ i ≤ high) (hlow : InWord low)
    (hhigh : InWord high) : Restored n (toInt? low high) ofInt i :=
  ⟨.leaf ⟨Int.le_trans hlow.1 h.1, Int.lt_of_le_of_lt h.2 hhigh.2⟩, if_pos h⟩

theorem kept_text (s : String) : Kept n (·.bind toText?) (some (.text s)) s :=
  kept_required (restored_text s)

theorem kept_text_orDefault (s default : String) :
    Kept n (orDefault toText? default) (some (.text s)) s := kept_orDefault (restored_text s)

theorem kept_text? (o : Option String) : Kept n (optionally toText?) (o.map .text) o :=
  kept_optionally (fun s _ => restored_text s) fun _ _ => rfl

theorem kept_bool (b default : Bool) : Kept n (orDefault toBool? default) (some (.bool b)) b :=
  kept_orDefault ⟨.leaf trivial, rfl⟩

/-- A list is kept if its values are, which have one level less. -/
theorem restored_list {xs : List α} (h : ∀ x ∈ xs, Restored n read write x) :
    Restored (n + 1) (toList? read) (fun xs => .list (xs.map write)) xs :=
  ⟨.list (by simpa using fun x hx => (h x hx).1), toList?_map fun x hx => (h x hx).2⟩

/-- A list that is left out when it is empty is kept if its values are. -/
theorem kept_someList {xs : List α} (h : xs = [] ∨ Occurs n (toList? read) xs)
    (hvalues : ∀ k x, n = k + 1 → x ∈ xs → Occurs k read x → Restored k read write x) :
    Kept n (orDefault (toList? read) []) (someList (xs.map write)) xs := by
  cases xs with
  | nil => exact ⟨fun d hd => (nomatch hd), rfl⟩
  | cons x xs =>
    obtain ⟨k, rfl, hoccurs⟩ := occurs_of_toList? (h.resolve_left (List.cons_ne_nil x xs))
    exact kept_orDefault (restored_list fun x' hx' => hvalues k x' rfl hx' (hoccurs x' hx'))

/-! ## Tagged records -/

/-- What belongs to a kind has as many levels as the record that says the kind. -/
theorem nested_of_tagged? {tag kind : String} {rest : Datum} (hd : Nested IsRead n d)
    (h : tagged? tag d = some (kind, rest)) : Nested IsRead n rest := by
  cases d with
  | record ms =>
    obtain ⟨k, rfl, hlevels⟩ := hd.of_record
    rw [tagged?] at h
    split at h
    · obtain ⟨ms', hms', hrest⟩ := Option.bind_eq_some_iff.mp h
      obtain ⟨_, -, hpair⟩ := Option.bind_eq_some_iff.mp hrest
      cases hpair
      have hothers : ∀ m ∈ ms.filter (·.1 != tag), Nested IsRead k m.2 :=
        fun m hm => hlevels m (List.mem_of_mem_filter hm)
      obtain ⟨rfl, -⟩ :=
        (settledMembers?_eq_some_iff fun m hm d' => (hothers m hm).settled?_eq_some_iff).mp hms'
      exact .record hothers
    · cases h
  | list items =>
    obtain ⟨k, rfl, hlevels⟩ := hd.of_list
    cases items with
    | nil => cases h
    | cons first items =>
      obtain ⟨_, hfirst, hrest⟩ := Option.bind_eq_some_iff.mp h
      obtain ⟨items', hitems', hpair⟩ := Option.bind_eq_some_iff.mp hrest
      cases hpair
      obtain ⟨-, hothers⟩ := List.forall_mem_cons.mp hlevels
      obtain ⟨rfl, -⟩ :=
        (settledItems?_eq_some_iff fun d hd d' => (hothers d hd).settled?_eq_some_iff).mp hitems'
      exact .list hothers
  | mapping es =>
    cases hd with
    | leaf h => exact absurd h (by rintro (h | h) <;> cases h)
  | _ => cases h

/-- A kind is read apart from what belongs to it. -/
theorem tagged?_present {tag kind : String} (hkeys : ∀ m ∈ os, m.1 ≠ tag)
    (hos : ∀ m ∈ os, ∀ d ∈ m.2, Nested IsWritten n d) :
    tagged? tag (record (present ((tag, some (.text kind)) :: os))) =
      some (kind, record (present os)) := by
  have hpresent : present ((tag, some (.text kind)) :: os) = (tag, .text kind) :: present os := rfl
  have hother : ∀ m ∈ present os, m.1 ≠ tag := fun m hm => by
    obtain ⟨m', hm', hfst⟩ := List.mem_map.mp
      ((fst_present_sublist os).subset (List.mem_map_of_mem hm))
    rw [← hfst]
    exact hkeys m' hm'
  have hkind : (present os).filter (·.1 == tag) = [] :=
    List.filter_eq_nil_iff.mpr fun m hm => by simpa using hother m hm
  have hrest : (present os).filter (·.1 != tag) = present os :=
    List.filter_eq_self.mpr fun m hm => by simpa using hother m hm
  have hsettled : settledMembers? (present os) = some (present os) := by
    have hrecord := (nested_present hos).settled?_self
    rw [settled?] at hrecord
    obtain ⟨ms, hms, heq⟩ := Option.map_eq_some_iff.mp hrecord
    cases heq
    exact hms
  rw [tagged?, hpresent, List.filter_cons_of_pos (by simp), List.filter_cons_of_neg (by simp),
    hkind, hrest, hsettled]
  rfl

/-! ## Maps -/

variable {map : NameMap α}

/-- Inserting what a map has gives the map. -/
theorem foldl_insert_toList (map : NameMap α) :
    map.toList.foldl (fun map m => map.insert m.1 m.2) (∅ : NameMap α) = map := by
  rw [← Std.ExtTreeMap.ofList_eq_foldl]
  refine Std.ExtTreeMap.ext_getElem? fun key => ?_
  cases hvalue : map[key]? with
  | none =>
    refine Std.ExtTreeMap.getElem?_ofList_of_contains_eq_false (Bool.eq_false_iff.mpr fun hmem => ?_)
    obtain ⟨m, hm, rfl⟩ := List.mem_map.mp (List.contains_iff_mem.mp hmem)
    rw [Std.ExtTreeMap.mem_toList_iff_getElem?_eq_some.mp hm] at hvalue
    cases hvalue
  | some x =>
    exact Std.ExtTreeMap.getElem?_ofList_of_mem Std.ReflCmp.compare_self
      Std.ExtTreeMap.distinct_keys_toList (Std.ExtTreeMap.mem_toList_iff_getElem?_eq_some.mpr hvalue)

/-- A map is read back as the map of what its values are read as. -/
theorem toMap?_ofMap {f : α → α}
    (h : ∀ (key : String) (x : α), map[key]? = some x → read (write x) = some (f x)) :
    toMap? read (ofMap write map) = some (map.map fun _ => f) := by
  have hmembers (ms : List (String × α)) (hms : ∀ m ∈ ms, read (write m.2) = some (f m.2))
      (into : NameMap α) :
      (ms.map fun m => (m.1, write m.2)).foldlM
          (fun map m => (read m.2).map fun v => map.insert m.1 v) into =
        some (ms.foldl (fun map m => map.insert m.1 (f m.2)) into) := by
    induction ms generalizing into with
    | nil => rfl
    | cons m ms ih =>
      obtain ⟨hm, hms⟩ := List.forall_mem_cons.mp hms
      rw [List.map_cons, List.foldlM_cons, hm, List.foldl_cons]
      exact ih hms _
  have hall := hmembers map.toList
    (fun m hm => h m.1 m.2 (Std.ExtTreeMap.mem_toList_iff_getElem?_eq_some.mp hm)) ∅
  have hmap := foldl_insert_toList (map.map fun _ => f)
  rw [Std.ExtTreeMap.toList_map, List.foldl_map] at hmap
  exact hall.trans (congrArg some hmap)

theorem nested_ofMap
    (h : ∀ (key : String) (x : α), map[key]? = some x → Nested IsWritten n (write x)) :
    Nested IsWritten (n + 1) (ofMap write map) := by
  refine .record fun m hm => ?_
  obtain ⟨m', hm', rfl⟩ := List.mem_map.mp hm
  exact h m'.1 m'.2 (Std.ExtTreeMap.mem_toList_iff_getElem?_eq_some.mp hm')

/-- The values of a map have one level less. -/
theorem occurs_of_toMap? (h : Occurs n (toMap? read) map) :
    ∃ k, n = k + 1 ∧ ∀ (key : String) (x : α), map[key]? = some x → Occurs k read x := by
  obtain ⟨d, hd, hread⟩ := h
  cases d with
  | record ms =>
    obtain ⟨k, rfl, hlevels⟩ := hd.of_record
    refine ⟨k, rfl, ?_⟩
    have hmembers (into : NameMap α)
        (hinto : ∀ (key : String) (x : α), into[key]? = some x → Occurs k read x)
        (hfold : ms.foldlM (fun map m => (read m.2).map fun v => map.insert m.1 v) into = some map) :
        ∀ (key : String) (x : α), map[key]? = some x → Occurs k read x := by
      clear hd hread
      induction ms generalizing into with
      | nil =>
        cases hfold
        exact hinto
      | cons m ms ih =>
        obtain ⟨hm, hms⟩ := List.forall_mem_cons.mp hlevels
        rw [List.foldlM_cons] at hfold
        obtain ⟨next, hnext, hrest⟩ := Option.bind_eq_some_iff.mp hfold
        obtain ⟨x, hx, rfl⟩ := Option.map_eq_some_iff.mp hnext
        refine ih hms _ (fun key x' hx' => ?_) hrest
        rw [Std.ExtTreeMap.getElem?_insert] at hx'
        split at hx'
        · cases hx'
          exact ⟨m.2, hm, hx⟩
        · exact hinto key x' hx'
    exact hmembers ∅ (fun key x hx => by simp at hx) hread
  | mapping es =>
    cases hd with
    | leaf h => exact absurd h (by rintro (h | h) <;> cases h)
  | _ => cases hread

end SlashCommand.Datum
