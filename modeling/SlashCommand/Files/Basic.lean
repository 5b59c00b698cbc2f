/-!
# Files

What the loaders and the command line need of a file system.  The operations run in a monad, so that
the same loaders run against the disk and against a tree of files in memory.
-/

namespace SlashCommand

/-- Why a file operation fails. -/
inductive FileError where
  | notFound
  | fileExists
  | notDirectory
  | isDirectory
  | nameTooLong
  | nullCharacter
  | notText
  | other (reason : String)
deriving DecidableEq, Repr, Inhabited

/-- The wording of a file error. -/
def FileError.message : FileError → String
  | notFound => "No such file or directory (os error 2)"
  | fileExists => "File exists (os error 17)"
  | notDirectory => "Not a directory (os error 20)"
  | isDirectory => "Is a directory (os error 21)"
  | nameTooLong => "File name too long (os error 36)"
  | nullCharacter => "file name contained an unexpected NUL byte"
  | notText => "stream did not contain valid UTF-8"
  | other reason => reason

/-- A file system. -/
structure FileSystem (m : Type → Type) where
  /-- The text of a file, unless its octets are none. -/
  read : String → m (Except FileError String)
  /-- The names in a directory, in no particular order. -/
  list : String → m (Except FileError (List String))
  /-- The path leads to a directory. -/
  isDirectory : String → m Bool
  /-- Gives a file a new text. -/
  write : String → String → m (Except FileError Unit)
  /-- Makes a directory and all directories on the way to it. -/
  makeDirectories : String → m (Except FileError Unit)

end SlashCommand
