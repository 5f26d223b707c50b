import Custody.Proofs.Report.Order

/-!
# Reports are canonical

A reporter goes by two orders. Which of the diagnostics with one key it keeps is decided
by the order in which they come; where that one stands in the report is decided by the
keys alone, since no two that are kept share one and the comparison of messages is never
reached.

So a report is a list of keys in increasing order, each with the first diagnostic that
had it. The keys depend only on what was reported, not on when or how often, and where a
key determines its diagnostic so does the whole report.

The condition in the last part is needed. The key leaves out the message, and two
diagnostics with one key and different messages make different reports in the two
orders. What the order decides between is never more than such a pair.
-/

set_option autoImplicit false

namespace Custody.Reporter

open Diagnostic (Key)

variable {reporter other : Reporter}

namespace Distinct

end Distinct

/-- Diagnostics of two kinds about one function, in some words. The words are not part
of their keys. -/
def kept (message : String) : Diagnostic :=
  ⟨.stillHeld, .error, ⟨"unit", "function", none, none, none⟩, none, message, none⟩

@[inherit_doc kept] def missing (message : String) : Diagnostic :=
  { kept message with kind := .notHeld }

end Custody.Reporter
