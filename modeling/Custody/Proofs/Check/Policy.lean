import Custody.Check.Basic
import Custody.Proofs.Except

/-!
# The policy on severities

The policy says how severe the findings of the analysis are, and nothing else depends on
it. A diagnostic graded for a severity is the diagnostic that is made for this severity
(`Diagnostic.graded`). Grading leaves alone all that reports are ordered by and that
diagnostics are told apart by. So it can be done before or after every step of a check:
the analysis of a function, the gathering of units, the dropping of repetitions, the
sorting (`Program.check_graded`).

To compare two checks one could go through them side by side and relate what they have
at each step. With `graded` there is only one check to go through: the check under the
other policy is this one with its result graded, and each step is an equation. Severity
is given to a diagnostic when it is made, at the very beginning, and the equations carry
it to the end.

Diagnostics that are no findings of the analysis are errors under both policies.
`graded` sets them to this, which changes nothing, since they were made as errors; so
grading does not have to know where a diagnostic came from.
-/

set_option autoImplicit false

namespace Custody

/-- The diagnostic, where findings of the analysis have the severity. Others are errors
whatever the policy. -/
def Diagnostic.graded (severity : Severity) (d : Diagnostic) : Diagnostic :=
  { d with severity := if d.kind.isFinding then severity else .error }

theorem Finding.diagnostic_graded (finding : Finding) (unit function : String)
    (severity other : Severity) :
    (finding.diagnostic unit function other).graded severity =
      finding.diagnostic unit function severity := rfl

theorem DeclarationError.diagnostic_graded (error : DeclarationError)
    (severity : Severity) :
    error.diagnostic.graded severity = error.diagnostic := rfl

/-! ## The analysis -/

def UnitOutcome.graded (severity : Severity) (outcome : UnitOutcome) : UnitOutcome :=
  { outcome with diagnostics := outcome.diagnostics.map (·.graded severity) }

namespace Table

variable (table : Table) (severity other : Severity)

theorem analyzeFunction_graded (unit : String) (decl : FunctionDecl) :
    (table.analyzeFunction other unit decl).map (·.graded severity) =
      table.analyzeFunction severity unit decl := by
  unfold analyzeFunction
  cases decl.body with
  | none => rfl
  | some body =>
    simp only
    split
    · rfl
    · cases (Context.ofDecl table unit decl).analyze body with
      | error error => rfl
      | ok outcome =>
        simp only [ok_bind, pure, Except.pure, Except.map, UnitOutcome.graded,
          List.map_map, Function.comp_def, Finding.diagnostic_graded]

theorem gather_graded (outcomes : List UnitOutcome) :
    gather (outcomes.map (·.graded severity)) = (gather outcomes).graded severity := by
  simp only [gather, UnitOutcome.graded, List.flatMap_map, List.map_flatMap, List.foldr_map]

theorem analyzeUnit_graded (unit : SourceUnit) :
    (table.analyzeUnit other unit).map (·.graded severity) =
      table.analyzeUnit severity unit := by
  have hall : unit.functions.mapM (table.analyzeFunction severity unit.name) =
      (unit.functions.mapM (table.analyzeFunction other unit.name)).map
        (List.map (·.graded severity)) := by
    rw [← mapM_map]
    simp only [analyzeFunction_graded]
  unfold analyzeUnit
  rw [hall]
  cases unit.functions.mapM (table.analyzeFunction other unit.name) with
  | error error => rfl
  | ok outcomes => simp only [ok_bind, pure, Except.pure, Except.map, gather_graded]

end Table

/-!
## The report

A reporter looks at keys, and sorting at keys and messages. The severity is in neither.
-/

namespace Reporter

variable (severity : Severity)

def graded (reporter : Reporter) : Reporter :=
  ⟨reporter.diagnostics.map (·.graded severity)⟩

theorem push_graded (reporter : Reporter) (d : Diagnostic) :
    (reporter.graded severity).push (d.graded severity) =
      (reporter.push d).graded severity := by
  have hhas :
      (reporter.graded severity).has (d.graded severity).key = reporter.has d.key := by
    simp only [has, graded, List.any_map]
    rfl
  unfold push
  rw [hhas]
  split
  · rfl
  · simp [graded]

theorem pushAll_graded (reporter : Reporter) (ds : List Diagnostic) :
    (reporter.graded severity).pushAll (ds.map (·.graded severity)) =
      (reporter.pushAll ds).graded severity := by
  induction ds generalizing reporter with
  | nil => rfl
  | cons d ds ih =>
    calc ((reporter.graded severity).push (d.graded severity)).pushAll
          (ds.map (·.graded severity))
      _ = ((reporter.push d).graded severity).pushAll (ds.map (·.graded severity)) := by
        rw [push_graded]
      _ = ((reporter.push d).pushAll ds).graded severity := ih (reporter.push d)

theorem finish_graded (reporter : Reporter) :
    (reporter.graded severity).finish = reporter.finish.map (·.graded severity) := by
  unfold finish
  rw [List.map_mergeSort (s := fun a b => (compare a b).isLE)]
  · rfl
  · intro a _ b _
    -- the order looks at keys and messages
    rfl

end Reporter

/-- A report with the diagnostics graded, and summed up again. The summary counts by
kind, and only whether the check passes has to do with severities. -/
def Report.graded (severity : Severity) (report : Report) : Report :=
  .of report.summary.analyzed (report.diagnostics.map (·.graded severity))

theorem Summary.tally_graded (analyzed : Nat) (severity : Severity) (ds : List Diagnostic) :
    tally analyzed (ds.map (·.graded severity)) =
      { tally analyzed ds with
        passed := (tally analyzed (ds.map (·.graded severity))).passed } := by
  simp only [tally, List.countP_map]
  rfl

theorem Summary.passed_tally_strict (analyzed : Nat) (ds : List Diagnostic) :
    (tally analyzed (ds.map (·.graded .error))).passed = true ↔ ds = [] := by
  cases ds <;> simp [tally, Diagnostic.graded]

theorem Summary.passed_tally_lenient (analyzed : Nat) (ds : List Diagnostic) :
    (tally analyzed (ds.map (·.graded .warning))).passed = true ↔
      ∀ d ∈ ds, d.kind ≠ .declaration ∧ d.kind ≠ .unbalancedSuppression := by
  have hkind : ∀ kind : Kind, kind.isFinding = true ↔
      kind ≠ .declaration ∧ kind ≠ .unbalancedSuppression := by
    intro kind
    cases kind <;> decide
  simp only [tally, List.all_map, List.all_eq_true, Function.comp, Diagnostic.graded,
    decide_eq_true_eq, ← hkind]
  refine forall₂_congr fun d _ => ?_
  cases d.kind.isFinding <;> simp

namespace Table

/-- The problems with declarations, which are reported first. -/
def declared (table : Table) : Reporter :=
  Reporter.empty.pushAll (table.errors.map DeclarationError.diagnostic)

def report (table : Table) (outcome : UnitOutcome) : Report :=
  .of outcome.analyzed (table.declared.pushAll outcome.diagnostics).finish

theorem declared_graded (table : Table) (severity : Severity) :
    table.declared.graded severity = table.declared := by
  have herrors : (table.errors.map DeclarationError.diagnostic).map (·.graded severity) =
      table.errors.map DeclarationError.diagnostic := by
    rw [List.map_map]
    exact List.map_congr_left fun error _ => error.diagnostic_graded severity
  unfold declared
  rw [← Reporter.pushAll_graded, herrors]
  rfl

theorem report_graded (table : Table) (severity : Severity) (outcome : UnitOutcome) :
    table.report (outcome.graded severity) = (table.report outcome).graded severity := by
  have hfinish :
      (table.declared.pushAll (outcome.diagnostics.map (·.graded severity))).finish =
        (table.declared.pushAll outcome.diagnostics).finish.map (·.graded severity) := by
    rw [← Reporter.finish_graded, ← Reporter.pushAll_graded, declared_graded]
  exact congrArg (Report.of outcome.analyzed) hfinish

end Table

namespace Program

theorem check_eq (program : Program) (settings : Settings) :
    program.check settings =
      if settings.enabled then do
        let table ← Table.build program
        let outcomes ← (program.units.filter (table.covers settings.coverage)).mapM
          (table.analyzeUnit (.ofPolicy settings.treatAsFatal))
        return table.report (Table.gather outcomes)
      else .ok (.of 0 []) := by
  unfold check
  cases settings.enabled <;> rfl

/-- A check under one policy is a check under another, graded. Errors are the same, as
they have no severity. -/
theorem check_graded (program : Program) (settings : Settings) (treatAsFatal : Bool) :
    (program.check settings).map (·.graded (.ofPolicy treatAsFatal)) =
      program.check { settings with treatAsFatal } := by
  have hunits : ∀ (table : Table) (units : List SourceUnit),
      units.mapM (table.analyzeUnit (.ofPolicy treatAsFatal)) =
        (units.mapM (table.analyzeUnit (.ofPolicy settings.treatAsFatal))).map
          (List.map (·.graded (.ofPolicy treatAsFatal))) := by
    intro table units
    rw [← mapM_map]
    simp only [Table.analyzeUnit_graded]
  rw [check_eq, check_eq]
  cases settings.enabled with
  | false => rfl
  | true =>
    simp only [if_true, hunits]
    cases Table.build program with
    | error error => rfl
    | ok table =>
      simp only [ok_bind]
      cases (program.units.filter (table.covers settings.coverage)).mapM
        (table.analyzeUnit (.ofPolicy settings.treatAsFatal)) with
      | error error => rfl
      | ok outcomes =>
        simp only [Except.map, ok_bind, pure, Except.pure, Table.gather_graded,
          Table.report_graded]

/-- **The policy on severities changes the severities of findings and nothing else.**
Two checks that differ in the policy fail with the same error, or both report: the same
diagnostics in the same order, of which the strict check has all as errors, while the
lenient one has the findings of the analysis as warnings and only the others as errors.
They count the same. The strict check passes if nothing is reported at all, the lenient
one if nothing but findings is. -/
theorem check_policy (program : Program) (settings : Settings) :
    let lenient := program.check { settings with treatAsFatal := false }
    let strict := program.check { settings with treatAsFatal := true }
    (∃ error, lenient = .error error ∧ strict = .error error) ∨
      ∃ report report', lenient = .ok report ∧ strict = .ok report' ∧
        report'.diagnostics =
          report.diagnostics.map (fun d => { d with severity := .error }) ∧
        (∀ d ∈ report.diagnostics,
          d.severity = if d.kind.isFinding then .warning else .error) ∧
        report'.summary = { report.summary with passed := report'.summary.passed } ∧
        (report'.summary.passed = true ↔ report'.diagnostics = []) ∧
        (report.summary.passed = true ↔
          ∀ d ∈ report.diagnostics,
            d.kind ≠ .declaration ∧ d.kind ≠ .unbalancedSuppression) := by
  intro lenient strict
  have hlenient : lenient.map (·.graded .warning) = lenient :=
    check_graded program { settings with treatAsFatal := false } false
  have hstrict : lenient.map (·.graded .error) = strict :=
    check_graded program { settings with treatAsFatal := false } true
  cases hcheck : lenient with
  | error error =>
    rw [hcheck] at hstrict
    exact .inl ⟨error, rfl, hstrict.symm⟩
  | ok report =>
    rw [hcheck] at hlenient hstrict
    -- the lenient report is its own grading, for warnings
    have hself : report.graded .warning = report := Except.ok.inj hlenient
    have hdiagnostics : report.diagnostics.map (·.graded .warning) = report.diagnostics :=
      congrArg Report.diagnostics hself
    have hsummary :
        report.summary = .tally report.summary.analyzed
          (report.diagnostics.map (·.graded .warning)) :=
      (congrArg Report.summary hself).symm
    refine .inr ⟨report, report.graded .error, rfl, hstrict.symm, ?_, ?_, ?_, ?_, ?_⟩
    · simp [Report.graded, Report.of, Diagnostic.graded]
    · intro d hd
      rw [← hdiagnostics] at hd
      obtain ⟨first, -, rfl⟩ := List.mem_map.1 hd
      rfl
    · rw [hdiagnostics] at hsummary
      rw [hsummary]
      exact Summary.tally_graded _ _ _
    · rw [Report.graded, Report.of, List.map_eq_nil_iff]
      exact Summary.passed_tally_strict _ _
    · rw [hsummary]
      exact Summary.passed_tally_lenient _ _

end Program

end Custody
