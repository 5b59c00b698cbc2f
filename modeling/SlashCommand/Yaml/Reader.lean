import SlashCommand.Yaml.Lexer
import SlashCommand.Yaml.Node

/-!
# Reading YAML

Configurations are written in YAML.  A text with one document is read in three stages: its tokens, the
tree of its nodes, and the document in which each alias is replaced by what it stands for.

A plain scalar becomes `Datum.plain` and a tagged one `Datum.tagged`, since their reading is up to the
field that they are for.

No list or record may lie inside 128 others; one that does is unreadable.  So what a node stands for
depends on its *room*, the number of lists and records that may still be opened at its place.  An alias
may lie inside of the node that it stands for: every list or record on the way to it takes a level of
the room, so that the documents for all anchors can be made from those for less room.
-/

namespace SlashCommand.Yaml

/-- The most lists and records that may lie inside each other. -/
def maxHeight : Nat := 128

/-- The scalar with the given text. -/
def scalarDatum (text : String) (plain : Bool) : Option Tag → Datum
  | some tag => .tagged tag (!plain) text
  | none => if plain then .plain text else .text text

/-- The documents that anchors stand for. -/
abbrev Anchors := List (Nat × Datum)

/-- The document that an anchor stands for with some room; `levels` has the documents for all anchors
without room, with room for one level, and so on. -/
def anchorDatum (levels : List Anchors) (room anchor : Nat) : Datum :=
  (levels[room]?.bind (·.lookup anchor)).getD .unreadable

namespace Node

mutual

/-- The document that a node stands for with some room, when the documents for the anchors are known
as far as they lie at a place with less room. -/
def toDatum (levels : List Anchors) (room : Nat) : Node → Datum
  | .scalar text plain tag => scalarDatum text plain tag
  | .alias a => anchorDatum levels room a
  | .anchored _ node => toDatum levels room node
  | .list items =>
    match room with
    | 0 => .unreadable
    | room + 1 => .list (itemsToData levels room items)
  | .record entries =>
    match room with
    | 0 => .unreadable
    | room + 1 => .mapping (entriesToData levels room entries)

/-- The documents that the items of a list stand for. -/
def itemsToData (levels : List Anchors) (room : Nat) : List Node → List Datum
  | [] => []
  | n :: ns => toDatum levels room n :: itemsToData levels room ns

/-- The documents that the entries of a record stand for. -/
def entriesToData (levels : List Anchors) (room : Nat) : List (Node × Node) → List (Datum × Datum)
  | [] => []
  | (k, v) :: es => (toDatum levels room k, toDatum levels room v) :: entriesToData levels room es

end

mutual

/-- The nodes with anchors in a node. -/
def anchoredNodes : Node → List (Nat × Node)
  | .scalar .. => []
  | .alias _ => []
  | .anchored a node => (a, node) :: anchoredNodes node
  | .list items => anchoredInItems items
  | .record entries => anchoredInEntries entries

/-- The nodes with anchors in the items of a list. -/
def anchoredInItems : List Node → List (Nat × Node)
  | [] => []
  | n :: ns => anchoredNodes n ++ anchoredInItems ns

/-- The nodes with anchors in the entries of a record. -/
def anchoredInEntries : List (Node × Node) → List (Nat × Node)
  | [] => []
  | (k, v) :: es => anchoredNodes k ++ anchoredNodes v ++ anchoredInEntries es

end

end Node

/-- The documents that anchors stand for, with room for less than `n` levels. -/
def anchorLevels (anchors : List (Nat × Node)) : Nat → List Anchors
  | 0 => []
  | n + 1 =>
    let levels := anchorLevels anchors n
    levels ++ [anchors.map fun (a, node) => (a, node.toDatum levels n)]

/-- The document that the node of a text stands for.  An alias that is not the whole of it lies inside
a list or a record. -/
def Node.document (n : Node) : Datum := n.toDatum (anchorLevels n.anchoredNodes maxHeight) maxHeight

/-- Reads a text with one document. -/
def parse (text : String) : Option Datum := do
  let node ← Node.ofTokens? (← tokens? text)
  some node.document

end SlashCommand.Yaml
