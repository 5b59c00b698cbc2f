/-!
# Paths

A path is a text whose segments are separated by slashes; one that begins with a slash is absolute.
Paths are kept as they are written.  Only `parent?` looks inside: it takes away the last segment
together with the slashes, and the segments `.`, that stand around it.
-/

namespace SlashCommand.Path

/-- The segments of a list of characters between slashes; there is always one more than slashes. -/
def splitSegments : List Char → List (List Char)
  | [] => [[]]
  | c :: cs =>
    if c = '/' then [] :: splitSegments cs
    else
      match splitSegments cs with
      | segment :: rest => (c :: segment) :: rest
      | [] => [[c]]

/-- The segments of a path. -/
def segments (path : String) : List String := (splitSegments path.toList).map String.ofList

/-- The path begins with a slash. -/
def isAbsolute (path : String) : Bool := path.toList.head? == some '/'

/-- The path that leads from a directory to another path; an absolute one stays as it is. -/
def join (base path : String) : String :=
  if isAbsolute path || base == "" then path
  else if base.toList.getLast? == some '/' then base ++ path
  else base ++ "/" ++ path

/-- The segment says nothing: it is empty or a single dot. -/
def isIdle (segment : String) : Bool := segment == "" || segment == "."

/-- The path of the directory that a path lies in, unless the path is empty or the root. -/
def parent? (path : String) : Option String :=
  let (root, body) :=
    if isAbsolute path then ("/", (segments path).drop 1)
    else
      match segments path with
      | "." :: rest => (".", rest)
      | all => ("", all)
  let trimmed := (body.reverse.dropWhile isIdle)
  match trimmed with
  | [] => if root == "." then some "" else none
  | _ :: before =>
    let kept := (before.dropWhile isIdle).reverse
    some <|
      if kept.isEmpty then root
      else if root == "." then "/".intercalate ("." :: kept)
      else root ++ "/".intercalate kept

/-- The part of a file name behind its last dot, unless that dot comes first. -/
def extension? (name : String) : Option String :=
  let tail := name.toList.reverse.takeWhile (· != '.')
  let front := name.toList.reverse.dropWhile (· != '.')
  if front.length ≤ 1 then none else some (String.ofList tail.reverse)

end SlashCommand.Path
