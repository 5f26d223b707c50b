import Custody.Baseline.Format
import Custody.Host.Basic
import Custody.Malformed

/-!
# Failures of commands

Why a command could not be carried out. A failure is told from the outside in: what was
being done, and then what went wrong.

The parts are kept as a list until they are printed, because there are two readers: a
person gets all of them in one line, and a caller who only wants to know which step
failed gets the first. Where a fault of the machine is told twice, as with a program
that cannot be read, that is because two steps report it.
-/

set_option autoImplicit false

namespace Custody.CommandLine

inductive Failure where
  | unknownKind (name : String)
  /-- There is no current directory. -/
  | noDirectory (fault : Fault)
  | configUnreadable (path : String) (fault : Fault)
  | configInvalid (path : String)
  | inputUnreadable (fault : Fault)
  | inputInvalid
  | programUnreadable (path : String) (fault : Fault)
  | programInvalid (path : String)
  | malformed (error : Malformed)
  | baselineUnusable (path : String) (error : BaselineError)
  | baselineUnwritable (path : String) (fault : Fault)
deriving DecidableEq, Repr

namespace Failure

/-- The parts of a failure, the outermost first. -/
def chain : Failure → List String
  | unknownKind name => ["unknown diagnostic kind: " ++ name]
  | noDirectory fault => [fault.message]
  | configUnreadable path fault => ["failed to read config file: " ++ path, fault.message]
  | configInvalid path => ["failed to parse config file: " ++ path, "not a settings file"]
  | inputUnreadable fault => ["failed to read program from stdin", fault.message]
  | inputInvalid => ["failed to parse program from stdin", "invalid program JSON"]
  | programUnreadable path fault =>
    ["failed to load " ++ path, "I/O error: " ++ fault.message, fault.message]
  | programInvalid path => ["failed to load " ++ path, "malformed input: " ++ path, "not a program"]
  | malformed error => [error.message]
  | baselineUnusable path error => ("failed to load baseline " ++ path) :: error.chain
  | baselineUnwritable path fault =>
    ("failed to write baseline " ++ path) :: (BaselineError.file fault.message).chain

def message (failure : Failure) : String := ": ".intercalate failure.chain

def context (failure : Failure) : String := failure.chain.headD ""

end Failure

end Custody.CommandLine
