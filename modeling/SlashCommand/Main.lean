import SlashCommand.CommandLine.Run
import Std.Time

/-!
# The program

The command line on the disk: a file system whose operations are those of the machine, the current
time, and the streams that results go to.
-/

namespace SlashCommand.Disk

/-- The file error for an error of the machine. -/
def fileError : IO.Error → FileError
  | .noFileOrDirectory .. => .notFound
  | .alreadyExists .. => .fileExists
  | .inappropriateType _ 20 _ => .notDirectory
  | .inappropriateType _ 21 _ => .isDirectory
  | .invalidArgument _ 36 _ => .nameTooLong
  | e => .other (toString e)

/-- Runs an operation and catches its error. -/
def attempt (act : IO α) : IO (Except FileError α) := do
  try return .ok (← act) catch e => return .error (fileError e)

/-- The text of a file. -/
def readText (path : String) : IO (Except FileError String) := do
  match ← attempt (IO.FS.readBinFile path) with
  | .error e => return .error e
  | .ok octets =>
    match String.fromUTF8? octets with
    | some text => return .ok text
    | none => return .error .notText

/-- The file system of the machine. -/
def fileSystem : FileSystem IO where
  read := readText
  list path := attempt do
    let directory := (← IO.currentDir) / path
    return (← directory.readDir).toList.map (·.fileName)
  isDirectory path := do
    if path == "" then return false
    let directory := (← IO.currentDir) / path
    directory.isDir
  write path text := attempt (IO.FS.writeFile path text)
  makeDirectories path := attempt (IO.FS.createDirAll path)

end SlashCommand.Disk

open SlashCommand in
/-- Runs the command line on the disk. -/
def main (arguments : List String) : IO UInt32 := do
  let now := Std.Time.DateTime.ofTimestamp (← Std.Time.Timestamp.now) .UTC
  let time := String.ofList now.toLeanDateTimeWithZoneString.toList.dropLast ++ "+00:00"
  let outcome ← CommandLine.run Disk.fileSystem time arguments
  IO.print outcome.output
  IO.eprint outcome.error
  return outcome.code.toUInt32
