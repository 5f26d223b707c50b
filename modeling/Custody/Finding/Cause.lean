import Custody.Capability.Mode
import Custody.Finding.Kind
import Custody.Ref.Basic
import Custody.Text.Quote

/-!
# Causes of findings

What the analysis has to say about a function body, one constructor per situation. The
kind of a cause, the capability it is about and its wording are functions of it.

The analysis deals in causes and never in texts. That makes it possible to say what a
finding is about (`ref?` is what the theorems on soundness and on reports speak of), and
it keeps the wordings in one place, where it can be seen that each is told from every
other. A cause carries the data its wording needs and nothing more, so two equal causes
at one place are one finding.
-/

set_option autoImplicit false

namespace Custody

/-- A situation the analysis reports. Of each, `kind` says where in a report it
belongs. -/
inductive Cause where
  /-- A callee requires a capability that is not provably held. -/
  | required (callee : String) (ref : Ref) (mode : Mode) (state : HeldState)
  /-- A callee excludes a capability that may be held. -/
  | excluded (callee : String) (ref : Ref) (state : HeldState)
  /-- A callee releases a capability that is not provably held. -/
  | releasedUnheld (callee : String) (ref : Ref) (state : HeldState)
  /-- A callee releases a capability in the mode it is not held in. -/
  | releasedOtherwise (callee : String) (ref : Ref) (mode : Mode) (state : HeldState)
  /-- A callee acquires a capability that is held already. -/
  | acquiredTwice (callee : String) (ref : Ref) (state : HeldState)
  /-- A guarded member is accessed without its guard. -/
  | unguarded (access : Access) (member : Ref) (ref : Ref) (state : HeldState)
  /-- A function returns without a capability that it acquires. -/
  | notAcquired (function : String) (ref : Ref) (mode : Mode) (state : HeldState)
  /-- A function returns without a capability that it requires. -/
  | notKept (function : String) (ref : Ref) (mode : Mode) (state : HeldState)
  /-- A function returns with a capability that it releases. -/
  | notReleased (function : String) (ref : Ref) (state : HeldState)
  /-- A function returns when it may hold a capability that it releases. -/
  | maybeNotReleased (function : String) (ref : Ref)
  /-- A function returns the success of a try-acquire without the capability. -/
  | attemptNotAcquired (function : String) (value : Bool) (ref : Ref) (state : HeldState)
  /-- A function returns the failure of a try-acquire with the capability. -/
  | attemptStillHeld (function : String) (value : Bool) (ref : Ref) (state : HeldState)
  /-- A function returns with a capability its contract does not speak of. -/
  | leaked (function : String) (ref : Ref) (state : HeldState)
  /-- Paths with different numbers of open regions meet. -/
  | mergedDepths
  /-- The markers inside an exempt block do not match. -/
  | exemptUnbalanced
  /-- A region is closed that was not open. -/
  | unmatchedEnable
  /-- A function returns inside a region. -/
  | returnsDisabled
deriving DecidableEq, Repr

namespace Cause

open Text (quoted)

def kind : Cause → Kind
  | required .. | releasedUnheld .. | unguarded .. => .notHeld
  | excluded .. | acquiredTwice .. => .excluded
  | releasedOtherwise .. | notAcquired .. | notKept .. | maybeNotReleased ..
  | attemptNotAcquired .. => .contractMismatch
  | notReleased .. | attemptStillHeld .. | leaked .. => .stillHeld
  | mergedDepths | exemptUnbalanced | unmatchedEnable | returnsDisabled => .unbalancedSuppression

/-- The capability a situation is about. What is wrong with markers is about none. -/
def ref? : Cause → Option Ref
  | required _ ref _ _ | excluded _ ref _ | releasedUnheld _ ref _ | releasedOtherwise _ ref _ _
  | acquiredTwice _ ref _ | unguarded _ _ ref _ | notAcquired _ ref _ _ | notKept _ ref _ _
  | notReleased _ ref _ | maybeNotReleased _ ref | attemptNotAcquired _ _ ref _
  | attemptStillHeld _ _ ref _ | leaked _ ref _ => some ref
  | mergedDepths | exemptUnbalanced | unmatchedEnable | returnsDisabled => none

/-- A truth value as the number a function returns for it. -/
def digit (value : Bool) : String := if value then "1" else "0"

/-- What a message says of a capability that should be gone. -/
def stillHeld (state : HeldState) : String :=
  match state.mode? with
  | some _ => "still " ++ state.describe
  | none => "possibly still held"

def message : Cause → String
  | required callee ref mode state =>
    "calling " ++ quoted callee ++ " requires " ++ quoted ref.render ++ " " ++ mode.requirement
      ++ ", but it is " ++ state.describe
  | excluded callee ref state =>
    "calling " ++ quoted callee ++ " requires " ++ quoted ref.render ++ " not held, but it is "
      ++ state.describeHold
  | releasedUnheld callee ref state =>
    quoted callee ++ " releases " ++ quoted ref.render ++ ", but it is " ++ state.describe
  | releasedOtherwise callee ref mode state =>
    quoted callee ++ " releases " ++ quoted ref.render ++ " as " ++ mode.name ++ ", but it is "
      ++ state.describe
  | acquiredTwice callee ref state =>
    quoted callee ++ " acquires " ++ quoted ref.render ++ ", but it is already " ++ state.describe
  | unguarded access member ref state =>
    access.verb ++ " " ++ quoted member.render ++ " requires " ++ quoted ref.render ++ " "
      ++ access.guardMode.requirement ++ ", but it is " ++ state.describe
  | notAcquired function ref mode state =>
    quoted function ++ " must return with " ++ quoted ref.render ++ " " ++ mode.requirement
      ++ ", but it is " ++ state.describe
  | notKept function ref mode state =>
    quoted function ++ " is called with " ++ quoted ref.render
      ++ " held and must return with it " ++ mode.requirement ++ ", but it is " ++ state.describe
  | notReleased function ref state =>
    quoted function ++ " releases " ++ quoted ref.render ++ ", but it is still "
      ++ state.describe ++ " on return"
  | maybeNotReleased function ref =>
    quoted function ++ " releases " ++ quoted ref.render
      ++ ", but it is possibly still held on return"
  | attemptNotAcquired function value ref state =>
    quoted function ++ " returns " ++ digit value ++ " (acquired) but " ++ quoted ref.render
      ++ " is " ++ state.describe
  | attemptStillHeld function value ref state =>
    quoted function ++ " returns " ++ digit value ++ " (not acquired) but " ++ quoted ref.render
      ++ " is still " ++ state.describe
  | leaked function ref state =>
    quoted ref.render ++ " is " ++ stillHeld state ++ " when " ++ quoted function ++ " returns"
  | mergedDepths => "paths with different capability-analysis suppression depths merge"
  | exemptUnbalanced => "suppression markers inside `capability_unsafe` do not match"
  | unmatchedEnable =>
    "`enable_capability_analysis()` without a matching `disable_capability_analysis()`"
  | returnsDisabled => "returns with capability analysis disabled"

end Cause

end Custody
