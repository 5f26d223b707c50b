import Custody.CommandLine.Run
import Std.Time.DateTime.Timestamp

/-!
# The program

Runs the command on the real machine. All that is in here is the translation of the
machine to a `Host`: how its errors are called, and how standard input is read. A path
that is empty names nothing, which the machine itself would see differently when it is
joined to the current directory.
-/

set_option autoImplicit false

namespace Custody.Main

open CommandLine

/-- The fault behind an error. -/
def faultOf : IO.Error → Fault
  | .noFileOrDirectory .. => .noEntry
  | .alreadyExists .. => .alreadyExists
  | .inappropriateType _ 20 _ => .notDirectory
  | .inappropriateType _ 21 _ => .isDirectory
  | .permissionDenied .. => .other "Permission denied (os error 13)"
  | .userError words => .other words
  | error => .other (toString error)

def attempt {α : Type} (action : IO α) : IO (Except Fault α) := do
  try return .ok (← action)
  catch error => return .error (faultOf error)

def kindOf (path : String) : IO (Option IO.FS.FileType) := do
  if path.isEmpty then return none
  try return some (← ((← IO.currentDir) / path).metadata).type
  catch _ => return none

def readText (stream : IO.FS.Stream) : IO String := do
  let mut bytes := ByteArray.empty
  repeat
    let chunk ← stream.read 65536
    if chunk.isEmpty then break
    bytes := bytes ++ chunk
  match String.fromUTF8? bytes with
  | some text => return text
  | none => throw (IO.userError "stream did not contain valid UTF-8")

def host : Host IO where
  readFile path := attempt (IO.FS.readFile path)
  isFile path := return (← kindOf path) matches some .file
  isDir path := return (← kindOf path) matches some .dir
  isPresent path := return (← kindOf path).isSome
  makeDir path := attempt (IO.FS.createDir path)
  writeFile path text := attempt (IO.FS.writeFile path text)
  readInput := do attempt (readText (← IO.getStdin))
  currentDir := attempt (return (← IO.currentDir).toString)
  now := do
    let time ← Std.Time.Timestamp.now
    let nanos := time.toNanosecondsSinceUnixEpoch.toInt.toNat
    return .ofUnix (nanos / Timestamp.nanosPerSecond) (nanos % Timestamp.nanosPerSecond)

def version : String := "capcheck 0.1.0"

def usage : String :=
  "Check that declared capabilities (locks, tokens) are held where the code requires them\n\n"
    ++ "Usage: capcheck [OPTIONS] [PATH]...\n"
    ++ "       capcheck <check|baseline|list-kinds|explain|help>\n"

end Custody.Main

open Custody in
/-- Reads the command line, carries out the command and prints what it leaves. -/
def main (args : List String) : IO UInt32 := do
  match CommandLine.parse args with
  | .error .help => IO.print Main.usage; return 0
  | .error .version => IO.println Main.version; return 0
  | .error .usage => IO.eprint Main.usage; return 2
  | .ok command =>
    let result ← CommandLine.run Main.host command
    IO.print result.out
    IO.eprint result.err
    return result.exit.toUInt32
