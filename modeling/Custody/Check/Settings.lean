/-!
# Settings of a check

What can be chosen about a check: whether it runs, which units it covers, how severe its
findings are, and how many units it takes at a time. Settings come from a configuration
and from the command line, which is read after it (`Settings.override`).

A command line can make findings fatal but cannot undo it: a configuration that says so
is a decision for a project, and one call of the program should not be able to drop it
unseen. Coverage and jobs are simply replaced. The number of jobs is in here although
the report does not depend on it, because it is set in the same places; that it makes no
difference is `runUnits_any_schedule` in `Proofs/Check/Pool`.
-/

set_option autoImplicit false

namespace Custody

/-- Which units are analyzed. -/
inductive Coverage where
  | all
  /-- Only those that asked for it. -/
  | optedIn
deriving DecidableEq, Repr, Inhabited

namespace Coverage

def name : Coverage → String
  | all => "all"
  | optedIn => "opted-in"

/-- The coverage a name stands for. -/
def ofName? : String → Option Coverage
  | "all" => some all
  | "opted-in" => some optedIn
  | _ => none

end Coverage

/-- How a program is checked. The defaults are those of a project without a
configuration. -/
structure Settings where
  enabled : Bool := true
  coverage : Coverage := .all
  /-- Findings of the analysis are errors. -/
  treatAsFatal : Bool := false
  /-- How many units are analyzed at a time, or 0 for as many as the machine allows. The
  report does not depend on it. -/
  jobs : Nat := 1
deriving DecidableEq, Repr, Inhabited

/-- The settings with what a command line says on top. Whether findings are fatal can
only be switched on. -/
def Settings.override (settings : Settings) (treatAsFatal : Bool) (coverage : Option Coverage)
    (jobs : Option Nat) : Settings :=
  { settings with
    treatAsFatal := settings.treatAsFatal || treatAsFatal
    coverage := coverage.getD settings.coverage
    jobs := jobs.getD settings.jobs }

end Custody
