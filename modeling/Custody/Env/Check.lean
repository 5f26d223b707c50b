import Custody.Contract.Bound
import Custody.Env.Basic
import Custody.Finding.Cause

/-!
# Obligations at calls

What a contract asks of the environment at a call: required capabilities are held,
excluded ones are not, released ones are held in the released mode, and acquired ones
are not held yet. Each check is a function of one clause.

An unknown state is judged against the caller, but for acquisitions. What is required or
released has to be held for sure, and what is excluded has to be free for sure. An
acquisition only fails if the capability is held for sure: to take a capability whose
state is unknown is how a function makes the state known again. The price is in
`Proofs/Analysis/Merge`, which says which violations survive where paths meet.

The checks look at the environment before the call and never at each other. All of a
contract is judged, also if its first clause fails, and effects are applied as if
nothing had failed, so that one mistake is not reported again at every later call.
-/

set_option autoImplicit false

namespace Custody

/-- An obligation that is not met, with the clause that states it. -/
structure Violation where
  cause : Cause
  clause : String
deriving DecidableEq, Repr

namespace Env

def checkRequired (env : Env) (callee : String) (clause : BoundClause) : Option Violation :=
  let state := env.state clause.inst.ref
  if state.satisfies clause.mode then none
  else some ⟨.required callee clause.inst.ref clause.mode state, clause.text⟩

def checkExcluded (env : Env) (callee : String) (clause : BoundClause) : Option Violation :=
  let state := env.state clause.inst.ref
  if state = .notHeld then none else some ⟨.excluded callee clause.inst.ref state, clause.text⟩

/-- What is wrong with a released capability: it is not held for sure, or held in the
other mode. The second is a mistake of its own, since an exclusive hold would meet the
requirement of a shared one. -/
def checkReleased (env : Env) (callee : String) (clause : BoundClause) : Option Violation :=
  let state := env.state clause.inst.ref
  match state.mode? with
  | none => some ⟨.releasedUnheld callee clause.inst.ref state, clause.text⟩
  | some held =>
    if held = clause.mode then none
    else some ⟨.releasedOtherwise callee clause.inst.ref clause.mode state, clause.text⟩

def checkAcquired (env : Env) (callee : String) (clause : BoundClause) : Option Violation :=
  let state := env.state clause.inst.ref
  if state.mode?.isSome then some ⟨.acquiredTwice callee clause.inst.ref state, clause.text⟩
  else none

/-- The obligations of a contract that an environment does not meet, in order. All are
checked in the environment before the call, also releases and acquisitions. -/
def violations (env : Env) (contract : BoundContract) : List Violation :=
  contract.requires.filterMap (env.checkRequired contract.callee)
    ++ contract.excludes.filterMap (env.checkExcluded contract.callee)
    ++ contract.releases.filterMap (env.checkReleased contract.callee)
    ++ contract.acquires.filterMap (env.checkAcquired contract.callee)

end Env

end Custody
