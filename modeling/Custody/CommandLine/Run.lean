import Custody.Check.Basic
import Custody.CommandLine.Arguments
import Custody.CommandLine.Failure
import Custody.Config.Basic
import Custody.Host.Basic
import Custody.Program.Reader
import Custody.Report.Printer
import Custody.Text.Blank

/-!
# Carrying out commands

What each command does on a host, and what it prints. Settings are found before the
program is read; what a command line says goes before what a settings file says.

The order of the steps is visible in what fails first, and in nothing else, so it is
written as a sequence: the start of the search, the settings, the program, the check,
the baseline, the output. A command that fails has printed nothing and leaves exit code
2; a check that finds something leaves 1.

A baseline is applied after the check and before anything is counted or judged. What it
takes away is neither printed nor part of the summary, except as a number.
-/

set_option autoImplicit false

namespace Custody.CommandLine

/-- What a command leaves: its exit code and what it prints. -/
structure Result where
  exit : Nat
  out : String
  err : String
deriving DecidableEq, Repr, Inhabited

def lines (texts : List String) : String := String.join (texts.map (· ++ "\n"))

def kindList : String := lines (Kind.all.map fun kind => kind.name ++ "\t" ++ kind.summary)

/-- What is to be said about a kind. -/
def explain (name : String) : Except Failure String :=
  match Kind.ofName? name with
  | none => .error (.unknownKind name)
  | some kind =>
    .ok (lines ["name: " ++ kind.name, "summary: " ++ kind.summary, "",
      " ".intercalate (Text.words kind.explanation)])

/-- The report in the format asked for: what goes to the output and to the error
output. -/
def printed (args : CheckArgs) (report : Report) (suppressed stale : Nat) : String × String :=
  match args.format with
  | .json => (lines [report.json suppressed stale], "")
  | .pretty =>
    (lines (report.diagnostics.map Diagnostic.pretty),
      lines [report.summary.line suppressed stale])
  | .github => (lines (report.diagnostics.map (·.workflowCommand args.denyWarnings)), "")

/-- Whether a check fails. Warnings only fail it if the command line says so, and a
baseline has been applied by then. -/
def isRejected (args : CheckArgs) (report : Report) : Bool :=
  !report.summary.passed || (args.denyWarnings && !report.diagnostics.isEmpty)

section

variable {m : Type → Type} [Monad m] (host : Host m)

/-! ## Settings -/

def loadConfigFile (path : String) : ExceptT Failure m Config := do
  match ← host.readFile path with
  | .error fault => throw (.configUnreadable path fault)
  | .ok text =>
    match Config.parse path text with
    | some config => return config
    | none => throw (.configInvalid path)

/-- The nearest settings file, in a directory or above it. Only the first one found is
read; settings of several are not put together. -/
def findConfig (dir : String) : m (Option String) :=
  ((Path.ancestors dir).map (Path.join · Config.fileName)).findM? host.isFile

/-- The settings file that is named, or else the nearest one, and what it says. -/
def loadConfig (named : Option String) (dir : String) :
    ExceptT Failure m (Option (String × Config)) := do
  let path? ← match named with
    | some path => pure (some path)
    | none => liftM (findConfig host dir)
  match path? with
  | none => return none
  | some path => return some (path, ← loadConfigFile host path)

/-- Where the search for settings starts: where the first file is, or in the current
directory. -/
def startDir (args : CheckArgs) : ExceptT Failure m String := do
  match args.paths with
  | [] =>
    match ← host.currentDir with
    | .ok dir => return dir
    | .error fault => throw (.noDirectory fault)
  | path :: _ =>
    if ← host.isFile path then return ((Path.parent? path).filter (!·.isEmpty)).getD "."
    else return path

/-- The settings for a check. -/
def resolve (args : CheckArgs) : ExceptT Failure m Config := do
  let dir ← startDir host args
  let found ← loadConfig host args.config dir
  let config := (found.map (·.2)).getD {}
  return { settings := config.settings.override args.treatAsFatal args.coverage args.jobs
           baseline := args.baseline.or config.baseline }

/-! ## Programs -/

def loadProgramFile (path : String) : ExceptT Failure m Program := do
  match ← host.readFile path with
  | .error fault => throw (.programUnreadable path fault)
  | .ok text =>
    match Program.parse text with
    | some program => return program
    | none => throw (.programInvalid path)

/-- The program in some files, or on standard input if there are none. The units of all
files are one program, in the order of the files. -/
def loadProgram : List String → ExceptT Failure m Program
  | [] => do
    match ← host.readInput with
    | .error fault => throw (.inputUnreadable fault)
    | .ok text =>
      match Program.parse text with
      | some program => return program
      | none => throw .inputInvalid
  | paths => do
    let parts ← paths.mapM (loadProgramFile host)
    return parts.foldl Program.append ⟨[]⟩

def report (args : CheckArgs) : ExceptT Failure m (Config × Report) := do
  let config ← resolve host args
  let program ← loadProgram host args.paths
  match program.check config.settings with
  | .ok report => return (config, report)
  | .error error => throw (.malformed error)

/-! ## Baselines -/

/-- The baseline in a file; without the file nothing is recorded. A file that is there
and cannot be read is a failure all the same. -/
def loadBaseline (path : String) : ExceptT Failure m Baseline := do
  if !(← host.isPresent path) then return .empty (← host.now)
  match ← host.readFile path with
  | .error fault => throw (.baselineUnusable path (.file fault.message))
  | .ok text =>
    match Baseline.parse text with
    | .ok baseline => return baseline
    | .error error => throw (.baselineUnusable path error)

def saveBaseline (path : String) (baseline : Baseline) : ExceptT Failure m Unit := do
  let stamped := baseline.stamp (← host.now)
  if let some dir := (Path.parent? path).filter (!·.isEmpty) then
    if let .error fault ← host.makeDirs dir then throw (.baselineUnwritable path fault)
  if let .error fault ← host.writeFile path stamped.render then
    throw (.baselineUnwritable path fault)

/-! ## Commands -/

def check (args : CheckArgs) : ExceptT Failure m Result := do
  let (config, full) ← report host args
  let (shown, suppressed, stale) ← match config.baseline with
    | none => pure (full, 0, 0)
    | some path =>
      let filtered := (← loadBaseline host path).filter full.diagnostics
      pure (Report.of full.summary.analyzed filtered.kept, filtered.suppressed,
        filtered.stale.length)
  let (out, err) := printed args shown suppressed stale
  return ⟨if isRejected args shown then 1 else 0, out, err⟩

def defaultBaseline : String := "capcheck-baseline.json"

def recordBaseline (args : BaselineArgs) : ExceptT Failure m Result := do
  let (config, report) ← report host args.check
  let path := (args.output.or config.baseline).getD defaultBaseline
  let baseline := (← loadBaseline host path).record (← host.now) report.diagnostics
  saveBaseline host path baseline
  return ⟨0, "", lines ["recorded " ++ toString baseline.size ++ " diagnostic(s) in " ++ path]⟩

/-- What a command leaves, unless it fails. -/
def perform : Command → ExceptT Failure m Result
  | .check _ args => check host args
  | .baseline args => recordBaseline host args
  | .listKinds => return ⟨0, kindList, ""⟩
  | .explain kind =>
    match explain kind with
    | .ok text => return ⟨0, text, ""⟩
    | .error failure => throw failure

def run (command : Command) : m Result := do
  match ← (perform host command).run with
  | .ok result => return result
  | .error failure => return ⟨2, "", lines [failure.message]⟩

end

end Custody.CommandLine
