import Custody.Analysis.Basic
import Custody.Check.Settings
import Custody.Report.Basic

/-!
# Checking a program

The table of the program is built; then every unit that is covered and has no faulty
declaration is analyzed, function by function. The report has the problems with
declarations and all findings.

Every step is a function of what it is given: a unit is analyzed from the table and its
own bodies, and what is found in one does not reach another. That is what makes it
possible to analyze units at the same time (`Check/Pool`), and to change their order
(`Proofs/UnitOrder/Check`). All diagnostics go through one reporter, those of
declarations first, so that a repetition is dropped wherever it comes from.
-/

set_option autoImplicit false

namespace Custody

structure UnitOutcome where
  diagnostics : List Diagnostic
  /-- How many functions were analyzed. -/
  analyzed : Nat
deriving DecidableEq, Repr, Inhabited

namespace Table

/-- The analysis of a function of a unit. A function without a body, or whose contract
says so, has none. -/
def analyzeFunction (table : Table) (severity : Severity) (unit : String) (decl : FunctionDecl) :
    Except Malformed UnitOutcome :=
  match decl.body with
  | none => .ok ⟨[], 0⟩
  | some body =>
    if (table.contractFor unit decl.name).noAnalysis then .ok ⟨[], 0⟩
    else do
      let outcome ← (Context.ofDecl table unit decl).analyze body
      return ⟨outcome.findings.map (·.diagnostic unit decl.name severity), 1⟩

def gather (outcomes : List UnitOutcome) : UnitOutcome :=
  ⟨outcomes.flatMap (·.diagnostics), outcomes.foldr (·.analyzed + ·) 0⟩

def analyzeUnit (table : Table) (severity : Severity) (unit : SourceUnit) :
    Except Malformed UnitOutcome := do
  return gather (← unit.functions.mapM (table.analyzeFunction severity unit.name))

/-- Whether a unit is analyzed. A unit that has not asked for it still has its
declarations in the table. -/
def covers (table : Table) (coverage : Coverage) (unit : SourceUnit) : Bool :=
  (coverage = .all || unit.optedIn) && table.isClean unit.name

end Table

/-- The report on a program. A check that is switched off reports nothing, and does not
look at the program. -/
def Program.check (program : Program) (settings : Settings) : Except Malformed Report :=
  if !settings.enabled then .ok (.of 0 [])
  else do
    let table ← Table.build program
    let units := program.units.filter (table.covers settings.coverage)
    let outcomes ← units.mapM (table.analyzeUnit (.ofPolicy settings.treatAsFatal))
    let outcome := Table.gather outcomes
    let reporter := (Reporter.empty.pushAll (table.errors.map DeclarationError.diagnostic)).pushAll
      outcome.diagnostics
    return .of outcome.analyzed reporter.finish

end Custody
