import Custody.Text.Blank

/-!
# Kinds of diagnostics

Every reported problem is of one of six kinds. Four are findings of the analysis, whose
severity is a matter of policy; the other two, misuse of the markers and invalid
declarations, are always errors.

The two that policy cannot touch are those that make the rest unreliable. With a marker
too many, it is not known where checks were meant to run; with an invalid declaration, a
contract is missing. Baselines and policies are about findings only (`isFinding`), so
neither can hide one of these.
-/

set_option autoImplicit false

namespace Custody

/-- The kind of a reported problem, in the order of reports. -/
inductive Kind where
  | notHeld
  | stillHeld
  | excluded
  | contractMismatch
  | unbalancedSuppression
  | declaration
deriving DecidableEq, Repr, Inhabited

namespace Kind

def all : List Kind :=
  [notHeld, stillHeld, excluded, contractMismatch, unbalancedSuppression, declaration]

def index : Kind → Nat
  | notHeld => 0
  | stillHeld => 1
  | excluded => 2
  | contractMismatch => 3
  | unbalancedSuppression => 4
  | declaration => 5

instance : Ord Kind := ⟨fun a b => compare a.index b.index⟩

def name : Kind → String
  | notHeld => "not_held"
  | stillHeld => "still_held"
  | excluded => "excluded"
  | contractMismatch => "contract_mismatch"
  | unbalancedSuppression => "unbalanced_suppression"
  | declaration => "declaration"

def summary : Kind → String
  | notHeld => "a capability is required but not provably held"
  | stillHeld => "a capability is still held when the function returns"
  | excluded => "a capability is held where it must not be"
  | contractMismatch => "the function body does not implement its declared contract"
  | unbalancedSuppression => "analysis suppression markers do not match"
  | declaration => "a capability annotation is invalid"

def explanation : Kind → String
  | notHeld =>
    "A call to a function declared with `__must_hold`, a release, or an access "
      ++ "to a `__guarded_by` member happens on a path where the capability is not "
      ++ "held in the required mode. A capability that is held on some incoming "
      ++ "paths only counts as not held."
  | stillHeld =>
    "The function returns while holding a capability that its contract does "
      ++ "not declare with `__acquires` or `__must_hold`. Either release it on every "
      ++ "path or declare the acquisition."
  | excluded =>
    "A function declared with `__must_not_hold` is called, or a capability is "
      ++ "acquired, while the capability is (or may be) already held."
  | contractMismatch =>
    "At a return, a capability declared with `__acquires` or `__must_hold` is "
      ++ "not held, a try-acquire returns a value that disagrees with the capability "
      ++ "state, or a capability is released in a mode other than the one it is "
      ++ "held in."
  | unbalancedSuppression =>
    "`enable_capability_analysis()` without a preceding "
      ++ "`disable_capability_analysis()`, a return with analysis still disabled, or "
      ++ "paths that merge with different suppression depths."
  | declaration =>
    "A contract contradicts itself, two declarations of a function carry "
      ++ "different contracts, an annotation names something that is not a "
      ++ "capability, or a capability type is declared twice with different kinds. "
      ++ "Declaration errors always fail the build and the affected translation "
      ++ "unit is not analyzed."

/-- Whether problems of the kind are found by the analysis of function bodies. Only such
problems follow the policy on severity, and only they can be in a baseline. -/
def isFinding : Kind → Bool
  | unbalancedSuppression | declaration => false
  | _ => true

/-- The kind a name means; blanks around it, its case and the choice between `-` and `_`
are free. -/
def ofName? (text : String) : Option Kind :=
  let wanted := (Text.trim text).map fun c => if c = '-' then '_' else c.toLower
  all.find? (·.name = wanted)

end Kind

end Custody
