import Custody.Path
import Custody.Time.Timestamp

/-!
# Hosts

What a command needs of the machine it runs on, in any monad. A host makes one directory
at a time; `Host.makeDirs` makes those above it as well.

Commands are written against this record and not against the machine, so that the whole
program can be run on a tree of files in memory (`Host/FileTree`) as well as on the real
one (`Main`). What fails is part of the answers and not of the monad: a command has to
say what it was doing when something failed, and goes on to do so. Faults that messages
tell apart are named; of all others the words of the machine are kept.
-/

set_option autoImplicit false

namespace Custody

/-- Why a machine does not do what it is asked for. -/
inductive Fault where
  | noEntry
  | alreadyExists
  | notDirectory
  | isDirectory
  /-- Anything else, in the words of the machine. -/
  | other (words : String)
deriving DecidableEq, Repr, Inhabited

def Fault.message : Fault → String
  | noEntry => "No such file or directory (os error 2)"
  | alreadyExists => "File exists (os error 17)"
  | notDirectory => "Not a directory (os error 20)"
  | isDirectory => "Is a directory (os error 21)"
  | other words => words

/-- The machine as a command sees it. Each field is one thing to ask it for, and fails
by its answer. -/
structure Host (m : Type → Type) where
  /-- The text of a file. -/
  readFile : (path : String) → m (Except Fault String)
  /-- Whether a path names a file. -/
  isFile : (path : String) → m Bool
  /-- Whether a path names a directory. -/
  isDir : (path : String) → m Bool
  /-- Whether a path names anything. -/
  isPresent : (path : String) → m Bool
  /-- Makes a directory. -/
  makeDir : (path : String) → m (Except Fault Unit)
  /-- Replaces the text of a file, which is made if it is missing. -/
  writeFile : (path text : String) → m (Except Fault Unit)
  /-- All of standard input. -/
  readInput : m (Except Fault String)
  /-- The path of the current directory. -/
  currentDir : m (Except Fault String)
  now : m Timestamp

namespace Host

variable {m : Type → Type} [Monad m] (host : Host m)

def ensureDir (path : String) : m (Except Fault Unit) := do
  match ← host.makeDir path with
  | .ok () => return .ok ()
  | .error fault => return if ← host.isDir path then .ok () else .error fault

/-- Makes the first of some directories, each of which is in the next; the others are
made only if they have to be. -/
def ensureDirs : List String → m (Except Fault Unit)
  | [] => return .ok ()
  | path :: above => do
    match ← host.ensureDir path with
    | .error .noEntry =>
      match ← ensureDirs above with
      | .ok () => host.ensureDir path
      | .error fault => return .error fault
    | result => return result

/-- Makes a directory and those above it, as far as they are missing. It starts at the
directory itself and goes up only where that is refused. -/
def makeDirs (path : String) : m (Except Fault Unit) :=
  host.ensureDirs ((Path.ancestors path).filter (!·.isEmpty))

end Host

end Custody
