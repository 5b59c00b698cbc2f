import SlashCommand.Files.Basic
import SlashCommand.Files.Path

/-!
# Trees of files

A file system in memory.  A tree lists its nodes by their full paths, so a directory is the list of
nodes one segment below it, in the order of the tree.  All paths start at the root of the tree; what
lies outside of it does not exist.

Names have at most 255 octets, and paths fewer than 4096, among which is no null character.
-/

namespace SlashCommand

/-- A file with its text, or a directory. -/
inductive FileNode where
  | file (text : String)
  | directory
deriving DecidableEq, Repr

/-- The nodes of a tree below its root. -/
structure FileTree where
  nodes : List (List String × FileNode) := []

namespace FileTree

/-- The node at a place. -/
def node? (t : FileTree) (place : List String) : Option FileNode :=
  if place = [] then some .directory else t.nodes.lookup place

/-- Whether a path can be looked up at all. -/
def checkPath (path : String) : Except FileError Unit :=
  if path.toList.contains '\x00' then .error .nullCharacter
  else if 4096 ≤ path.utf8ByteSize then .error .nameTooLong
  else .ok ()

/-- No node can have the name. -/
def isLongName (name : String) : Bool := 255 < name.utf8ByteSize

/-- Follows the segments of a path from a place with the given node. -/
def follow (t : FileTree) (place : List String) (node : FileNode) :
    List String → Except FileError (List String × FileNode)
  | [] => .ok (place, node)
  | segment :: rest =>
    if node ≠ .directory then .error .notDirectory
    else if Path.isIdle segment then t.follow place node rest
    else if segment = ".." then
      if place = [] then .error .notFound else t.follow place.dropLast .directory rest
    else if isLongName segment then .error .nameTooLong
    else
      match t.node? (place ++ [segment]) with
      | some node => t.follow (place ++ [segment]) node rest
      | none => .error .notFound

/-- The place and the node that a path leads to. -/
def resolve (t : FileTree) (path : String) : Except FileError (List String × FileNode) := do
  checkPath path
  if path == "" || Path.isAbsolute path then .error .notFound
  else t.follow [] .directory (Path.segments path)

/-- Puts a node in the place of what was there. -/
def put (t : FileTree) (place : List String) (node : FileNode) : FileTree :=
  { nodes := t.nodes.filter (·.1 != place) ++ [(place, node)] }

/-- The text of a file. -/
def read (t : FileTree) (path : String) : Except FileError String := do
  match ← t.resolve path with
  | (_, .file text) => .ok text
  | (_, .directory) => .error .isDirectory

/-- The names in a directory. -/
def list (t : FileTree) (path : String) : Except FileError (List String) := do
  match ← t.resolve path with
  | (_, .file _) => .error .notDirectory
  | (place, .directory) =>
    .ok <| t.nodes.filterMap fun (p, _) => if p.dropLast = place then p.getLast? else none

/-- The path leads to a directory. -/
def isDirectory (t : FileTree) (path : String) : Bool :=
  match t.resolve path with
  | .ok (_, .directory) => true
  | _ => false

/-- Gives a file a new text.  A path whose last name has slashes behind it means a directory, also where
nothing of that name exists yet. -/
def write (t : FileTree) (path text : String) : Except FileError FileTree := do
  checkPath path
  let segments := ((Path.segments path).reverse.dropWhile (· == "")).reverse
  match segments.getLast? with
  | none => .error .notFound
  | some name =>
    if Path.isAbsolute path then .error .notFound
    else
      let (place, node) ← t.follow [] .directory segments.dropLast
      if node ≠ .directory then .error .notDirectory
      else if name = "." ∨ name = ".." ∨ path.toList.getLast? = some '/' then .error .isDirectory
      else if isLongName name then .error .nameTooLong
      else
        match t.node? (place ++ [name]) with
        | some .directory => .error .isDirectory
        | _ => .ok (t.put (place ++ [name]) (.file text))

/-- Makes the directories on the way along the segments of a path. -/
def makeAlong (t : FileTree) (place : List String) : List String → Except FileError FileTree
  | [] => .ok t
  | segment :: rest =>
    if Path.isIdle segment then t.makeAlong place rest
    else if segment = ".." then
      if place = [] then .error .notFound else t.makeAlong place.dropLast rest
    else if isLongName segment then .error .nameTooLong
    else
      match t.node? (place ++ [segment]) with
      | some .directory => t.makeAlong (place ++ [segment]) rest
      | some (.file _) => .error (if rest.isEmpty then .fileExists else .notDirectory)
      | none => (t.put (place ++ [segment]) .directory).makeAlong (place ++ [segment]) rest

/-- Makes a directory and all directories on the way to it. -/
def makeDirectories (t : FileTree) (path : String) : Except FileError FileTree := do
  checkPath path
  if Path.isAbsolute path then .error .notFound else t.makeAlong [] (Path.segments path)

/-- Keeps what an operation made of the tree, if it did not fail. -/
def keep (result : FileTree → Except FileError FileTree) :
    StateM FileTree (Except FileError Unit) := fun t =>
  match result t with
  | .ok t' => (.ok (), t')
  | .error e => (.error e, t)

/-- The file system of a tree. -/
def fileSystem : FileSystem (StateM FileTree) where
  read path := return (← get).read path
  list path := return (← get).list path
  isDirectory path := return (← get).isDirectory path
  write path text := keep (·.write path text)
  makeDirectories path := keep (·.makeDirectories path)

end FileTree

end SlashCommand
