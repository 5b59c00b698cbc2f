import SlashCommand.Call.Request

/-!
# The form cache

Forms that were fetched from their apps are kept by key.  The same binding can have another form in
another channel or thread, so the key has both beside the location.

A key does not own its form directly but a *cell*, which is empty while the form is being fetched.
Every fetch of a key holds on to the cell that the key had when the fetch began.  A form that arrives
after the key was inserted anew or the cache was cleared therefore fills a cell that no key leads to
any more, and what the cache answers does not change.
-/

namespace SlashCommand

/-- What a form is kept under. -/
structure FormKey where
  channelId : String
  rootId : String
  location : String
deriving DecidableEq, Repr

/-- The key on one line. -/
def FormKey.text (k : FormKey) : String := k.channelId ++ "-" ++ k.rootId ++ "-" ++ k.location

/-- The key of the binding at `location`. -/
def CommandContext.formKey (c : CommandContext) (location : String) : FormKey :=
  ⟨c.channelId, c.rootId.getD "", location⟩

/-- Cells in the order of their making, and the cell of each key.  A cell holds the form that filled
it. -/
structure FormCache where
  cells : List (Option Form) := []
  entries : List (FormKey × Nat) := []

namespace FormCache

/-- A cache without keys. -/
def empty : FormCache := {}

/-- The form in a cell. -/
def form? (c : FormCache) (cell : Nat) : Option Form := c.cells[cell]?.join

/-- The cell of a key. -/
def cell? (c : FormCache) (key : FormKey) : Option Nat := c.entries.lookup key

/-- The form under a key, if it has arrived. -/
def get? (c : FormCache) (key : FormKey) : Option Form := (c.cell? key).bind c.form?

/-- The number of keys whose form has arrived. -/
def size (c : FormCache) : Nat := c.entries.countP fun (_, cell) => (c.form? cell).isSome

/-- No form has arrived. -/
def isEmpty (c : FormCache) : Bool := c.size == 0

/-- Forgets all keys. -/
def clear (c : FormCache) : FormCache := { c with entries := [] }

/-- Puts a form under a key, in a cell of its own. -/
def insert (c : FormCache) (key : FormKey) (form : Form) : FormCache where
  cells := c.cells ++ [some form]
  entries := (key, c.cells.length) :: c.entries.filter (·.1 != key)

/-- The cell of a key, made empty if the key has none. -/
def attach (c : FormCache) (key : FormKey) : Nat × FormCache :=
  match c.cell? key with
  | some cell => (cell, c)
  | none =>
    (c.cells.length,
      { cells := c.cells ++ [none], entries := (key, c.cells.length) :: c.entries })

/-- Fills an empty cell; a filled one keeps its form. -/
def fill (c : FormCache) (cell : Nat) (form : Form) : FormCache :=
  { c with cells := c.cells.modify cell fun held => held.or (some form) }

end FormCache

end SlashCommand
