import Custody.Analysis.Block
import Custody.Finding.Kind
import Custody.Table.Problem

/-!
# Diagnostics

A diagnostic is a problem in the form in which it is reported: what kind it is of, how
severe, where, about which capability, in words, and which clause of a contract is not
met.

Its key, made of location, capability and kind, tells diagnostics apart; reports are in
the order of location, kind, capability and message. Message and clause are not part of
the key: two clauses that fail at one place for one capability are one problem, and the
first is shown.

Orders are given by composing comparisons of fields, in the order in which a reader
looks for something, and are what a report is sorted by. That they are linear, up to the
parts they leave out, is proved in `Proofs/Report/Order`, by the same composition.
-/

set_option autoImplicit false

namespace Custody

inductive Severity where
  | warning
  | error
deriving DecidableEq, Repr, Inhabited

namespace Severity

def name : Severity → String
  | warning => "warning"
  | error => "error"

def ofName? : String → Option Severity
  | "warning" | "warn" => some warning
  | "error" => some error
  | _ => none

/-- The severity of what the analysis finds, under a policy. -/
def ofPolicy (treatAsFatal : Bool) : Severity := if treatAsFatal then error else warning

end Severity

/-- Where a diagnostic is: in a function, or a declaration, and where that is known at a
statement of a block. -/
structure Location where
  unit : String
  function : String
  block : Option Nat := none
  stmt : Option Nat := none
  line : Option Nat := none
deriving DecidableEq, Repr, Inhabited

namespace Location

/-- Locations are ordered by unit, function, block, statement and line; unknown parts
come first. -/
instance : Ord Location :=
  ⟨compareLex (compareOn unit) (compareLex (compareOn function) (compareLex (compareOn block)
    (compareLex (compareOn stmt) (compareOn line))))⟩

def render (location : Location) : String :=
  location.unit ++ ":" ++ location.function
    ++ (match location.block, location.stmt with
      | some block, some stmt => ":bb" ++ toString block ++ "." ++ toString stmt
      | some block, none => ":bb" ++ toString block
      | none, _ => "")
    ++ (match location.line with
      | some line => " (line " ++ toString line ++ ")"
      | none => "")

end Location

/-- A problem as it is reported. -/
structure Diagnostic where
  kind : Kind
  severity : Severity
  location : Location
  /-- The capability it is about. -/
  capability : Option String
  message : String
  /-- The clause that is not met, as written. -/
  contract : Option String
deriving DecidableEq, Repr, Inhabited

namespace Diagnostic

/-- What tells diagnostics apart. Neither severity nor message is in it, so that a
problem is one problem under every policy and in every wording. -/
structure Key where
  location : Location
  kind : Kind
  capability : Option String
deriving DecidableEq, Repr, Inhabited

/-- Keys are ordered by location, kind and capability. -/
instance : Ord Key :=
  ⟨compareLex (compareOn Key.location) (compareLex (compareOn Key.kind) (compareOn Key.capability))⟩

def key (d : Diagnostic) : Key := ⟨d.location, d.kind, d.capability⟩

/-- The order of reports. -/
instance : Ord Diagnostic := ⟨compareLex (compareOn key) (compareOn message)⟩

/-- The text of a diagnostic: one line, and one more for a clause. -/
def pretty (d : Diagnostic) : String :=
  d.location.render ++ ": " ++ d.severity.name ++ "[" ++ d.kind.name ++ "]: " ++ d.message
    ++ (match d.contract with
      | some contract => "\n  = contract: " ++ Text.quoted contract
      | none => "")

end Diagnostic

/-- A finding as it is reported. Only findings of the analysis follow the policy on
severity; an empty clause is none. -/
def Finding.diagnostic (finding : Finding) (unit function : String) (severity : Severity) :
    Diagnostic :=
  { kind := finding.cause.kind
    severity := if finding.cause.kind.isFinding then severity else .error
    location :=
      { unit, function
        block := finding.site?.map (·.block)
        stmt := finding.site?.map (·.stmt)
        line := finding.site?.bind (·.line) }
    capability := finding.cause.ref?.map Ref.render
    message := finding.cause.message
    contract := if finding.clause.isEmpty then none else some finding.clause }

/-- A problem with a declaration as it is reported. -/
def DeclarationError.diagnostic (error : DeclarationError) : Diagnostic :=
  { kind := .declaration
    severity := .error
    location := { unit := error.unit, function := error.item }
    capability := none
    message := error.problem.kind.name ++ ": " ++ error.problem.message
    contract := none }

end Custody
