import Custody.Table.Problem
import Custody.Text.Blank
import Custody.Text.Quote

/-!
# Input that cannot be checked

What is wrong with a program that has no answer at all, as opposed to what is found in
one. A contract that contradicts itself, or two that disagree, is reported next to the
findings and the other functions are still checked (`Table/Problem`). The errors here
end the check: what an attribute speaks of is not there, a body is not a graph, or the
analysis of a body did not come to an end.

Errors are causes, with the places that belong to them; the wording is one function, so
that what went wrong can be compared and stated without taking texts apart.
-/

set_option autoImplicit false

namespace Custody

open Text (quoted)

/-- Why a program cannot be checked. Each names the unit, and what in it the error is
about. -/
inductive Malformed where
  /-- An attribute speaks of a name or a field that does not exist. -/
  | unresolved (unit item written : String) (error : ClauseError)
  /-- The entry block of a body does not exist. -/
  | missingEntry (unit function : String) (entry : Nat)
  /-- A block jumps to one that does not exist. -/
  | missingTarget (unit function : String) (block target : Nat)
  /-- The analysis of a body gave up. -/
  | diverged (unit function : String) (block : Nat)
deriving DecidableEq, Repr

namespace Malformed

def detail : Malformed → String
  | unresolved unit item written error =>
    unit ++ ": " ++ quoted item ++ ": " ++ quoted (Text.trim written) ++ ": " ++ error.message
  | missingEntry unit function entry =>
    unit ++ ": " ++ quoted function ++ ": entry block " ++ toString entry ++ " does not exist"
  | missingTarget unit function block target =>
    unit ++ ": " ++ quoted function ++ ": bb" ++ toString block ++ " jumps to nonexistent block "
      ++ toString target
  | diverged unit function block =>
    unit ++ ": " ++ quoted function ++ ": analysis of bb" ++ toString block ++ " did not converge"

/-- The wording of the whole error. The first words are the same for all, and for files
that are no programs at all, so that a caller can tell from them whose fault it was. -/
def message (m : Malformed) : String := "malformed input: " ++ m.detail

end Malformed

end Custody
