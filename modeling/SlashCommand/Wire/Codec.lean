import SlashCommand.Datum.Scalar
import SlashCommand.Form.Value

/-!
# Reading the parts of a document

Small readers for scalars, lists and the members of records, from which the readers of all domain
types are put together.  None of them says why it fails: a document either has a value of the type
or it has none.

Three rules hold throughout.

* An optional member may be missing or null.
* A member with a default may be missing, and then only missing.
* A value whose shape decides its type is read from a *settled* document, one in which every scalar
  has its own reading and nothing is unreadable.  So is what stands behind the member that says the
  kind of a record: it is *buffered* until the kind is known.

What is said of records holds of mappings too.
-/

namespace SlashCommand.Datum

/-- Truth or falsehood. -/
def toBool? (d : Datum) : Option Bool :=
  match settleScalar d with
  | .bool b => some b
  | _ => none

/-- A whole number between two bounds. -/
def toInt? (low high : Int) (d : Datum) : Option Int :=
  match settleScalar d with
  | .number (.whole n) => if low ≤ n ∧ n ≤ high then some n else none
  | _ => none

/-- The document says that there is no value. -/
def isNull (d : Datum) : Bool := settleScalar d matches .null

/-- A list of texts. -/
def toTexts? (d : Datum) : Option (List String) := do (← d.items?).mapM toText?

/-- Inserts a member into a record whose keys are sorted, replacing the value of its key. -/
def insertMember (k : String) (v : Datum) : List (String × Datum) → List (String × Datum)
  | [] => [(k, v)]
  | (k', v') :: ms =>
    if k = k' then (k, v) :: ms
    else if k < k' then (k, v) :: (k', v') :: ms
    else (k', v') :: insertMember k v ms

mutual

/-- The document with the members of each record sorted by key; of two members with one key the
last is kept. -/
def sorted : Datum → Datum
  | .list items => .list (sortedItems items)
  | .record ms => .record (sortedMembers [] ms)
  | d => d

/-- The items of a list, sorted inside. -/
def sortedItems : List Datum → List Datum
  | [] => []
  | d :: ds => sorted d :: sortedItems ds

/-- Inserts members one after the other into a sorted record. -/
def sortedMembers (into : List (String × Datum)) : List (String × Datum) → List (String × Datum)
  | [] => into
  | (k, d) :: ms => sortedMembers (insertMember k (sorted d) into) ms

end

/-- A value that is carried along and not looked at: resolved, and its records sorted. -/
def verbatim? (d : Datum) : Option Datum := d.resolved?.map sorted

/-- A required member. -/
def required (ms : List (String × Datum)) (key : String) (read : Datum → Option α) : Option α :=
  (find? key ms).bind read

/-- An optional member. -/
def optional (ms : List (String × Datum)) (key : String) (read : Datum → Option α) :
    Option (Option α) :=
  match find? key ms with
  | none => some none
  | some d => do if ← d.isAbsent? then some none else (read d).map some

/-- A member with a default. -/
def defaulted (ms : List (String × Datum)) (key : String) (read : Datum → Option α) (default : α) :
    Option α :=
  match find? key ms with
  | none => some default
  | some d => read d

/-- A list of values. -/
def toList? (read : Datum → Option α) (d : Datum) : Option (List α) := do (← d.items?).mapM read

/-- A record with free keys, which are texts; of two members with one key the last counts. -/
def toMap? (read : Datum → Option α) : Datum → Option (NameMap α)
  | .record ms => insertAll ms
  | .mapping es => (es.mapM fun e => (toText? e.1).map (·, e.2)).bind insertAll
  | _ => none
where
  /-- The map of the members. -/
  insertAll (ms : List (String × Datum)) : Option (NameMap α) :=
    ms.foldlM (fun map (k, d) => (read d).map fun v => map.insert k v) ∅

/-- A map as a record, sorted by key. -/
def ofMap (write : α → Datum) (map : NameMap α) : Datum :=
  .record (map.toList.map fun (k, v) => (k, write v))

/-- The document says that nothing belongs to the name that it is the value of.  In a buffered document
an empty record says so too. -/
def isVoid (buffered : Bool) (d : Datum) : Bool :=
  d.isNull || buffered && (d matches .record [] || d matches .mapping [])

/-- One of several names, given as a text or as the only key of a record whose value is void.  A
scalar that is tagged with one of the names has a value of its own, and it is not null. -/
def toName? (buffered : Bool) (names : List (String × α)) (d : Datum) : Option α :=
  let named (s : String) := (names.find? (·.1 == s)).map (·.2)
  match d with
  | .record [(k, v)] => if v.isVoid buffered then named k else none
  | .mapping [(k, v)] => if v.isVoid buffered then (keyName? (names.map (·.1)) k).bind named else none
  | .tagged (.own s) _ t => if (named s).isSome then none else named t
  | d => d.toText?.bind named

/-- The kind and the other members of a record in which the member `tag` says of which kind it is; a
list gives the kind first.  The other members are settled. -/
def tagged? (tag : String) : Datum → Option (String × Datum)
  | .record ms =>
    match ms.filter (·.1 == tag) with
    | [(_, kind)] => do
      let rest ← settledMembers? (ms.filter (·.1 != tag))
      some (← kind.toText?, .record rest)
    | _ => none
  | .mapping es => do
    let isTag (e : Datum × Datum) : Bool := settleScalar e.1 == .text tag
    match es.filter isTag with
    | [(_, kind)] =>
      let rest ← settledEntries? (es.filter (!isTag ·))
      some (← kind.toText?, .mapping rest)
    | _ => none
  | .list (kind :: items) => do some (← kind.toText?, .list (← settledItems? items))
  | _ => none

end SlashCommand.Datum
