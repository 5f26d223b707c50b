import Custody.Report.Diagnostic

/-!
# Reports

A reporter collects diagnostics: of those with one key the first counts, and the report
has them in order. A summary counts them by what they mean for a build.

The same problem is found more than once when a function is declared in many units, or
when several clauses say the same. Which of the diagnostics with one key is kept does
depend on the order in which they come; what is kept under each key is then all that a
report shows, and in an order of its own (`finish`). So a report is a function of the
first diagnostic under each key (`Proofs/Report/Order`).

Counts are taken over what is reported, not over what was found. A baseline takes
diagnostics away before they are counted again.
-/

set_option autoImplicit false

namespace Custody

/-- The diagnostics so far, in order of arrival, no two with one key. The order of
arrival matters for which one is kept, and for nothing else. -/
structure Reporter where
  diagnostics : List Diagnostic
deriving DecidableEq, Repr, Inhabited

namespace Reporter

def empty : Reporter := ⟨[]⟩

def has (reporter : Reporter) (key : Diagnostic.Key) : Bool :=
  reporter.diagnostics.any (·.key = key)

/-- Reports a diagnostic, unless there is one with its key. -/
def push (reporter : Reporter) (d : Diagnostic) : Reporter :=
  if reporter.has d.key then reporter else ⟨reporter.diagnostics ++ [d]⟩

def pushAll (reporter : Reporter) (ds : List Diagnostic) : Reporter := ds.foldl push reporter

/-- The diagnostics in the order of reports. No two have one key, so that the messages,
by which diagnostics are compared last, never decide. -/
def finish (reporter : Reporter) : List Diagnostic :=
  reporter.diagnostics.mergeSort fun a b => (compare a b).isLE

end Reporter

structure Summary where
  /-- How many functions were analyzed. -/
  analyzed : Nat
  violations : Nat
  declarationErrors : Nat
  usageErrors : Nat
  /-- Whether nothing is an error. -/
  passed : Bool
deriving DecidableEq, Repr, Inhabited

/-- The counts over some diagnostics. How many functions were analyzed cannot be told
from them and is given. -/
def Summary.tally (analyzed : Nat) (ds : List Diagnostic) : Summary :=
  { analyzed
    violations := ds.countP (·.kind.isFinding)
    declarationErrors := ds.countP (·.kind = .declaration)
    usageErrors := ds.countP (·.kind = .unbalancedSuppression)
    passed := ds.all (·.severity ≠ .error) }

structure Report where
  diagnostics : List Diagnostic
  summary : Summary
deriving DecidableEq, Repr, Inhabited

def Report.of (analyzed : Nat) (ds : List Diagnostic) : Report := ⟨ds, .tally analyzed ds⟩

end Custody
