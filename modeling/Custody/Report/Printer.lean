import Custody.Json.Printer
import Custody.Report.Basic

/-!
# Forms of a report

A report is written as JSON, as text with a summary line, or as workflow commands, one
line each.

JSON and workflow commands are read by programs. A JSON value is built first and written
by its own module, which knows how to quote. A workflow command is a line, and ends
where the line ends, so what a diagnostic says is escaped before it goes in. The escapes
are few: the two characters that end a line, and the one that begins an escape, without
which a text that looks like an escape could not be told from one
(`Proofs/Report/Workflow`). Nothing else is escaped, neither in the text nor in the
properties before it.
-/

set_option autoImplicit false

namespace Custody

/-! ## JSON -/

def Json.ofText? (text : Option String) : Json := (text.map Json.string).getD .null

def Json.ofNat? (n : Option Nat) : Json := (n.map Json.nat).getD .null

def Location.toJson (location : Location) : Json :=
  .object [("unit", .string location.unit), ("function", .string location.function),
    ("block", .ofNat? location.block), ("stmt", .ofNat? location.stmt),
    ("line", .ofNat? location.line)]

def Diagnostic.toJson (d : Diagnostic) : Json :=
  .object [("kind", .string d.kind.name), ("severity", .string d.severity.name),
    ("location", d.location.toJson), ("instance", .ofText? d.capability),
    ("message", .string d.message), ("contract", .ofText? d.contract)]

def Summary.toJson (summary : Summary) : Json :=
  .object [("functions_analyzed", .nat summary.analyzed), ("violations", .nat summary.violations),
    ("declaration_errors", .nat summary.declarationErrors),
    ("usage_errors", .nat summary.usageErrors), ("passed", .bool summary.passed)]

def Report.members (report : Report) : List (String × Json) :=
  [("diagnostics", .array (report.diagnostics.map Diagnostic.toJson)),
   ("summary", report.summary.toJson)]

/-- The JSON text of a report, with how many diagnostics a baseline took away and how
many of its entries were not needed. -/
def Report.json (report : Report) (suppressed stale : Nat) : String :=
  (Json.object (report.members ++
    [("baseline_suppressed", .nat suppressed), ("baseline_stale", .nat stale)])).pretty

/-! ## Text -/

/-- The counts of a report in one line, with how many diagnostics a baseline took away
and how many of its entries were not needed. -/
def Summary.line (summary : Summary) (suppressed stale : Nat) : String :=
  "checked " ++ toString summary.analyzed ++ " function(s): " ++ toString summary.violations
    ++ " violation(s), " ++ toString summary.declarationErrors ++ " declaration error(s), "
    ++ toString summary.usageErrors ++ " usage error(s)"
    ++ (if suppressed > 0 then ", " ++ toString suppressed ++ " in baseline" else "")
    ++ (if stale > 0 then
        ", " ++ toString stale ++ " stale baseline " ++ (if stale = 1 then "entry" else "entries")
          ++ " (rerun `capcheck baseline` to prune)"
      else "")

/-! ## Workflow commands -/

namespace Workflow

/-- How a character is written in a workflow command: what would end the line or start
an escape is escaped. -/
def escapeChar (c : Char) : List Char :=
  if c = '%' then ['%', '2', '5']
  else if c = '\r' then ['%', '0', 'D']
  else if c = '\n' then ['%', '0', 'A']
  else [c]

/-- A text as it is written in a workflow command. -/
def escape (text : String) : String := String.ofList (text.toList.flatMap escapeChar)

end Workflow

/-- The workflow command for a diagnostic. A diagnostic without a line is put on the
first. -/
def Diagnostic.workflowCommand (d : Diagnostic) (denyWarnings : Bool) : String :=
  let level := if denyWarnings then Severity.error else d.severity
  let text := d.location.function ++ ": " ++ d.message
    ++ (match d.contract with
      | some contract => "\ncontract: " ++ contract
      | none => "")
  "::" ++ level.name ++ " file=" ++ Workflow.escape d.location.unit
    ++ ",line=" ++ toString (d.location.line.getD 1) ++ ",col=1,title=" ++ d.kind.name
    ++ "::" ++ Workflow.escape text

end Custody
