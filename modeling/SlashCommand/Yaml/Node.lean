import SlashCommand.Yaml.Token

/-!
# Nodes of YAML

The tokens of a document form a tree of scalars, lists and records.  A node may have an anchor, and an
alias stands for the node with an anchor that comes before it; since an anchor may be given anew, they
are told apart by numbers.

A value that is missing is the plain scalar `~`.  Where a tag or an anchor says that there is one, it
is the empty plain scalar.

A step of the grammar that reads no token is followed by one that does, so a multiple of the number of
tokens is fuel enough.
-/

namespace SlashCommand.Yaml

/-- A node of a document. -/
inductive Node where
  | scalar (text : String) (plain : Bool) (tag : Option Tag)
  | list (items : List Node)
  | record (entries : List (Node × Node))
  | anchored (anchor : Nat) (node : Node)
  | alias (anchor : Nat)
deriving Inhabited

namespace Node

/-- A value that is missing. -/
def missing : Node := .scalar "~" true none

end Node

/-- The tokens that are left, and the anchors that were given, the last one first. -/
structure Grammar where
  tokens : List Token
  anchors : List (String × Nat) := []

/-- A step of the grammar. -/
abbrev Parse := StateT Grammar Option

namespace Parse

/-- The next token. -/
def peek : Parse (Option Token) := return (← get).tokens.head?

/-- Passes a token. -/
def skip : Parse Unit := modify fun g => { g with tokens := g.tokens.drop 1 }

/-- Passes a token, which has to be the given one. -/
def expect (t : Token) : Parse Unit := do
  if (← peek) = some t then skip else failure

/-- Passes all tokens of a kind that come next. -/
def skipAll (t : Token) : Parse Unit := modify fun g => { g with tokens := g.tokens.dropWhile (· == t) }

/-- Gives an anchor to the node that follows. -/
def giveAnchor (name : String) : Parse Nat := do
  let n := (← get).anchors.length
  modify fun g => { g with anchors := (name, n) :: g.anchors }
  return n

/-- Reads an anchor, if one comes next. -/
def anchor? : Parse (Option Nat) := do
  match ← peek with
  | some (.anchor name) =>
    skip
    return some (← giveAnchor name)
  | _ => return none

/-- Reads a tag, if one comes next. -/
def tag? : Parse (Option Tag) := do
  match ← peek with
  | some (.tag t) =>
    skip
    return some t
  | _ => return none

/-- Reads an anchor and a tag, in either order. -/
def properties : Parse (Option Nat × Option Tag) := do
  match ← anchor? with
  | some a => return (some a, ← tag?)
  | none =>
    let tag ← tag?
    if tag.isSome then return (← anchor?, tag) else return (none, none)

/-- A value is missing where one of the given tokens comes next. -/
def isMissing (before : List Token) : Parse Bool := return (← peek).any before.contains

mutual

/-- Reads a node.  In a block it may be a block, and as the value of a key its items may stand at the
column of the key. -/
def node (fuel : Nat) (block value : Bool) : Parse Node :=
  match fuel with
  | 0 => failure
  | fuel + 1 => do
    match ← peek with
    | some (.alias name) =>
      skip
      match (← get).anchors.lookup name with
      | some a => return .alias a
      | none => failure
    | _ =>
      let (anchor, tag) ← properties
      let content ← nodeContent fuel block value anchor.isSome tag
      return match anchor with
        | some a => .anchored a content
        | none => content

/-- Reads a node behind its properties. -/
def nodeContent (fuel : Nat) (block value anchored : Bool) (tag : Option Tag) : Parse Node :=
  match fuel with
  | 0 => failure
  | fuel + 1 => do
    match ← peek with
    | some (.scalar text plain) =>
      skip
      return .scalar text plain tag
    | some .flowSequence =>
      skip
      return .list (← flowItems fuel true)
    | some .flowMapping =>
      skip
      return .record (← flowEntries fuel true)
    | t =>
      if t = some .blockEntry ∧ value then return .list (← siblingItems fuel)
      else if t = some .blockSequence ∧ block then
        skip
        return .list (← blockItems fuel)
      else if t = some .blockMapping ∧ block then
        skip
        return .record (← blockEntries fuel)
      else if anchored ∨ tag.isSome then return .scalar "" true tag
      else failure

/-- Reads the items of a block list up to its end. -/
def blockItems (fuel : Nat) : Parse (List Node) :=
  match fuel with
  | 0 => failure
  | fuel + 1 => do
    match ← peek with
    | some .blockEnd =>
      skip
      return []
    | some .blockEntry =>
      skip
      let item ←
        if ← isMissing [.blockEntry, .blockEnd] then pure Node.missing else node fuel true false
      return item :: (← blockItems fuel)
    | _ => failure

/-- Reads the items of a list at the column of its key. -/
def siblingItems (fuel : Nat) : Parse (List Node) :=
  match fuel with
  | 0 => failure
  | fuel + 1 => do
    match ← peek with
    | some .blockEntry =>
      skip
      let item ←
        if ← isMissing [.blockEntry, .key, .value, .blockEnd] then pure Node.missing
        else node fuel true false
      return item :: (← siblingItems fuel)
    | _ => return []

/-- Reads the entries of a block record up to its end. -/
def blockEntries (fuel : Nat) : Parse (List (Node × Node)) :=
  match fuel with
  | 0 => failure
  | fuel + 1 => do
    match ← peek with
    | some .blockEnd =>
      skip
      return []
    | some .key =>
      skip
      let key ← blockPart fuel
      let value ← blockValue fuel
      return (key, value) :: (← blockEntries fuel)
    | some .value =>
      let value ← blockValue fuel
      return (Node.missing, value) :: (← blockEntries fuel)
    | _ => failure

/-- Reads a key or a value of a block record. -/
def blockPart (fuel : Nat) : Parse Node :=
  match fuel with
  | 0 => failure
  | fuel + 1 => do
    if ← isMissing [.key, .value, .blockEnd] then return Node.missing else node fuel true true

/-- Reads the value of a block record with its mark, which may be missing. -/
def blockValue (fuel : Nat) : Parse Node :=
  match fuel with
  | 0 => failure
  | fuel + 1 => do
    if ← isMissing [.value] then
      skip
      blockPart fuel
    else return Node.missing

/-- Reads the items of a list in brackets up to its end; a comma stands before each but the first. -/
def flowItems (fuel : Nat) (first : Bool) : Parse (List Node) :=
  match fuel with
  | 0 => failure
  | fuel + 1 => do
    if ← isMissing [.flowSequenceEnd] then
      skip
      return []
    else
      unless first do expect .flowEntry
      match ← peek with
      | some .flowSequenceEnd =>
        skip
        return []
      | some .key =>
        skip
        let entry ← flowPair fuel
        return .record [entry] :: (← flowItems fuel false)
      | _ =>
        let item ← node fuel false false
        return item :: (← flowItems fuel false)

/-- Reads a key and its value among the items of a list in brackets.  A token that stands in the place
of the key is passed. -/
def flowPair (fuel : Nat) : Parse (Node × Node) :=
  match fuel with
  | 0 => failure
  | fuel + 1 => do
    let key ←
      if ← isMissing [.value, .flowEntry, .flowSequenceEnd] then
        skip
        pure Node.missing
      else node fuel false false
    if ← isMissing [.value] then
      skip
      if ← isMissing [.flowEntry, .flowSequenceEnd] then return (key, Node.missing)
      else return (key, ← node fuel false false)
    else return (key, Node.missing)

/-- Reads the entries of a record in braces up to its end; a comma stands before each but the first. -/
def flowEntries (fuel : Nat) (first : Bool) : Parse (List (Node × Node)) :=
  match fuel with
  | 0 => failure
  | fuel + 1 => do
    if ← isMissing [.flowMappingEnd] then
      skip
      return []
    else
      unless first do expect .flowEntry
      match ← peek with
      | some .flowMappingEnd =>
        skip
        return []
      | some .key =>
        skip
        let key ←
          if ← isMissing [.value, .flowEntry, .flowMappingEnd] then pure Node.missing
          else node fuel false false
        let value ← flowValue fuel
        return (key, value) :: (← flowEntries fuel false)
      | some .value =>
        let value ← flowValue fuel
        return (Node.missing, value) :: (← flowEntries fuel false)
      | _ =>
        let key ← node fuel false false
        return (key, Node.missing) :: (← flowEntries fuel false)

/-- Reads the value of a record in braces with its mark, which may be missing. -/
def flowValue (fuel : Nat) : Parse Node :=
  match fuel with
  | 0 => failure
  | fuel + 1 => do
    if ← isMissing [.value] then
      skip
      if ← isMissing [.flowEntry, .flowMappingEnd] then return Node.missing
      else node fuel false false
    else return Node.missing

end

/-- Reads the only document of a text.  Before it there may be directives, if it has a separator. -/
def document : Parse Node := do
  let fuel := 4 * (← get).tokens.length + 4
  let explicit ← isMissing [.directive, .documentStart]
  let empty ←
    if explicit then
      skipAll .directive
      expect .documentStart
      isMissing [.directive, .documentStart, .documentEnd]
    else pure false
  let root ←
    if empty ∨ explicit ∧ (← peek) = none then pure Node.missing else node fuel true false
  skipAll .documentEnd
  if (← peek) = none then return root else failure

end Parse

/-- The only document that the tokens form. -/
def Node.ofTokens? (ts : List Token) : Option Node := (Parse.document.run { tokens := ts }).map (·.1)

end SlashCommand.Yaml
