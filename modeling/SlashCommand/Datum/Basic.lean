import SlashCommand.Datum.Number

/-!
# Documents

Bindings, forms, requests, fixtures and configurations arrive as documents.  A `Datum` is such a
document taken apart: scalars, lists and records.  It serves both written formats, and four of its
constructors exist for reading alone:

* `plain` is an unquoted scalar of a format in which the reader of a field decides whether `true` or
  `12` is meant as a text;
* `tagged` is a scalar that says itself what it is meant as;
* `mapping` is a record whose keys are documents, because they may be scalars of those kinds;
* `unreadable` stands for a part that is well formed and has no value, such as a numeral beyond every
  number.  Skipping over it is harmless and reading it fails.

Records keep the order of their members as written.  Reading a record of a known shape goes through
`Datum.members?`, which accepts a record without repeated known keys and also a bare list of the
members in the order of their declaration.  In a mapping a number is the key of the member at that
place of the declaration.
-/

namespace SlashCommand

/-- What a scalar is marked as: one of the types that every document knows, such as `int`, a name of
the document's own, or anything else. -/
inductive Tag where
  | core (name : String)
  | own (name : String)
  | other
deriving DecidableEq, Repr, Inhabited

/-- A document taken apart. -/
inductive Datum where
  | null
  | bool (value : Bool)
  | number (value : Number)
  | text (value : String)
  | plain (written : String)
  | tagged (tag : Tag) (quoted : Bool) (written : String)
  | list (items : List Datum)
  | record (members : List (String × Datum))
  | mapping (entries : List (Datum × Datum))
  | unreadable
deriving BEq, Repr, Inhabited

namespace Datum

/-- A whole number as a document. -/
def ofInt (n : Int) : Datum := .number (.whole n)

/-- A list of texts as a document. -/
def ofTexts (ts : List String) : Datum := .list (ts.map .text)

/-- The member `key` with the given value. -/
def member (key : String) (value : Datum) : List (String × Datum) := [(key, value)]

/-- The member `key`, left out when there is no value. -/
def member? (key : String) : Option Datum → List (String × Datum)
  | some value => [(key, value)]
  | none => []

/-- The member `key` holding a list, left out when the list is empty. -/
def memberList (key : String) : List Datum → List (String × Datum)
  | [] => []
  | items => [(key, .list items)]

/-- The member of a record with the declared keys `keys` that a key of a mapping stands for: a scalar
is its name, and a number its place. -/
def keyName? (keys : List String) : Datum → Option String
  | .text s => some s
  | .plain s => some s
  | .tagged _ _ s => some s
  | .number (.whole n) => some (keys[n.toNat]?.getD "")
  | _ => none

/-- The entries of a mapping under the names of their keys. -/
def named? (keys : List String) (es : List (Datum × Datum)) : Option (List (String × Datum)) :=
  es.mapM fun e => (keyName? keys e.1).map (·, e.2)

/-- The members of a record whose declared keys are `keys`, in order: none of the declared keys may
occur twice, and a list stands for its items under the declared keys in turn. -/
def members? (keys : List String) : Datum → Option (List (String × Datum))
  | .record ms => unrepeated ms
  | .mapping es => (named? keys es).bind unrepeated
  | .list items => if items.length ≤ keys.length then some (keys.zip items) else none
  | _ => none
where
  /-- The members, unless a declared key occurs twice. -/
  unrepeated (ms : List (String × Datum)) : Option (List (String × Datum)) :=
    if keys.all fun k => (ms.countP fun m => m.1 == k) ≤ 1 then some ms else none

/-- The value of a member. -/
def find? (key : String) (ms : List (String × Datum)) : Option Datum :=
  (ms.find? fun m => m.1 == key).map (·.2)

/-- The items of a list. -/
def items? : Datum → Option (List Datum)
  | .list items => some items
  | _ => none

theorem sizeOf_lt_of_find? {key : String} {ms : List (String × Datum)} {v : Datum}
    (h : find? key ms = some v) : sizeOf v < sizeOf ms := by
  simp only [find?, Option.map_eq_some_iff] at h
  obtain ⟨m, hm, rfl⟩ := h
  have := List.sizeOf_lt_of_mem (List.mem_of_find?_eq_some hm)
  have : sizeOf m.2 < sizeOf m := by cases m; simp +arith
  omega

theorem sizeOf_zip_lt (keys : List String) (items : List Datum) {m : String × Datum}
    (h : m ∈ keys.zip items) : sizeOf m.2 < sizeOf items :=
  List.sizeOf_lt_of_mem (List.of_mem_zip h).2

theorem sizeOf_lt_of_named? {keys : List String} {es : List (Datum × Datum)}
    {ms : List (String × Datum)} (h : named? keys es = some ms) {m : String × Datum} (hm : m ∈ ms) :
    sizeOf m.2 < sizeOf es := by
  induction es generalizing ms with
  | nil =>
    simp only [named?, List.mapM_nil, Option.pure_def, Option.some.injEq] at h
    subst h
    cases hm
  | cons e es ih =>
    simp only [named?, List.mapM_cons, Option.pure_def, Option.bind_eq_bind,
      Option.bind_eq_some_iff, Option.map_eq_some_iff, Option.some.injEq] at h
    obtain ⟨_, ⟨k, -, rfl⟩, rest, hrest, rfl⟩ := h
    rcases List.mem_cons.mp hm with rfl | hm
    · obtain ⟨k', v⟩ := e
      simp only [List.cons.sizeOf_spec, Prod.mk.sizeOf_spec]
      omega
    · have := ih hrest hm
      simp only [List.cons.sizeOf_spec]
      omega

/-- A member of a record, in any written form, is smaller than the record. -/
theorem sizeOf_member_lt {keys : List String} {d v : Datum} {ms : List (String × Datum)}
    {key : String} (hm : d.members? keys = some ms) (hv : find? key ms = some v) :
    sizeOf v < sizeOf d := by
  cases d with
  | record ms' =>
    simp only [members?, members?.unrepeated, Option.ite_none_right_eq_some,
      Option.some.injEq] at hm
    obtain ⟨-, rfl⟩ := hm
    have := sizeOf_lt_of_find? hv
    simp only [record.sizeOf_spec]
    omega
  | mapping es =>
    simp only [members?, members?.unrepeated, Option.bind_eq_some_iff,
      Option.ite_none_right_eq_some, Option.some.injEq] at hm
    obtain ⟨_, hes, -, rfl⟩ := hm
    simp only [find?, Option.map_eq_some_iff] at hv
    obtain ⟨m, hm, rfl⟩ := hv
    have := sizeOf_lt_of_named? hes (List.mem_of_find?_eq_some hm)
    simp only [mapping.sizeOf_spec]
    omega
  | list items =>
    simp only [members?, Option.ite_none_right_eq_some, Option.some.injEq] at hm
    obtain ⟨-, rfl⟩ := hm
    simp only [find?, Option.map_eq_some_iff] at hv
    obtain ⟨m, hm, rfl⟩ := hv
    have := sizeOf_zip_lt keys items (List.mem_of_find?_eq_some hm)
    simp only [list.sizeOf_spec]
    omega
  | _ => simp [members?] at hm

/-- An item of a list is smaller than the list. -/
theorem sizeOf_item_lt {d v : Datum} {items : List Datum} (hd : d.items? = some items)
    (hv : v ∈ items) : sizeOf v < sizeOf d := by
  cases d with
  | list items' =>
    simp only [items?, Option.some.injEq] at hd
    subst hd
    have := List.sizeOf_lt_of_mem hv
    simp only [list.sizeOf_spec]
    omega
  | _ => simp [items?] at hd

end Datum

end SlashCommand
