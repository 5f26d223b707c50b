import Custody.Contract.Bound
import Custody.Env.Basic

/-!
# Effects of calls

What a call does to an environment, clause by clause: releases, releases that could not
be bound, acquisitions, assertions, try-acquires, in this order.

The order is part of what a contract means. Releases come first, so that a contract that
names a capability in both ways leaves it held. Assertions come after both, because they
speak of the state after the call. Try-acquires come last, because what they leave
behind, an unknown state and an attempt, would be overwritten by the others.

Clauses of a list are applied one after the other, each to what the one before it left.
This matters in one place only: a release of something that is not tracked makes all
that may be the same object uncertain, and what an earlier clause of the list released
is not tracked any more (`Proofs/Env/Frame`).
-/

set_option autoImplicit false

namespace Custody.Env

/-- After a release. Only a release of a capability that is not tracked is taken to have
hit another one through an alias. If the capability is tracked under the name it is
released by, the release is about that one, and to weaken others as well would make
every function with two pointers of one type uncertain after the first release. -/
def release (env : Env) (inst : Instance) : Env :=
  let released := ((env.set inst .notHeld).unassert inst.ref).forgetAttempts inst.ref
  if env.held.contains inst.ref then released else released.weaken (·.mayAlias inst)

/-- After a release of something of a type, or of anything where no type is known. A
hold without a known type may be of any. -/
def releaseUnresolved (env : Env) (type? : Option CapId) : Env :=
  env.weaken fun held => type?.isNone || held.type?.isNone || held.type? == type?

def acquire (env : Env) (inst : Instance) (mode : Mode) : Env :=
  ((env.set inst (.held mode)).unassert inst.ref).forgetAttempts inst.ref

/-- After an assertion that a capability is held. It adds a hold where there is none
that is good enough, and marks the capability either way. -/
def assert (env : Env) (inst : Instance) (mode : Mode) : Env :=
  let held := if (env.state inst.ref).satisfies mode then env else env.set inst (.held mode)
  { held with asserted := held.asserted.insert inst.ref () }

def addAttempt (env : Env) (name : String) (attempt : Attempt) : Env :=
  { env with attempts := env.attempts.insert name (env.attemptsOf name ++ [attempt]) }

/-- After a try-acquire. With a known result it is an acquisition or nothing; else the
capability's state is unknown until the local with the result is tested. Earlier
attempts on it are forgotten, since testing them would now set a state that this call
has changed. -/
def tryAcquire (env : Env) (inst : Instance) (mode : Mode) (success : Bool) (result : CallResult) :
    Env :=
  let prior := env.state inst.ref
  let env := env.forgetAttempts inst.ref
  match result.value? with
  | some value => if value = success then env.set inst (.held mode) else env
  | none =>
    let env := env.set inst .unknown
    match result.local? with
    | some name => env.addAttempt name ⟨inst, mode, success, prior⟩
    | none => env

/-- After a call. Each step is a fold over the clauses of one list, so that what a call
does is known from what a clause does. -/
def apply (env : Env) (contract : BoundContract) (result : CallResult) : Env :=
  let env := contract.releases.foldl (fun env clause => env.release clause.inst) env
  let env := contract.unresolvedReleases.foldl releaseUnresolved env
  let env := contract.acquires.foldl (fun env clause => env.acquire clause.inst clause.mode) env
  let env := contract.asserts.foldl (fun env clause => env.assert clause.inst clause.mode) env
  contract.tryAcquires.foldl (fun env attempt =>
    env.tryAcquire attempt.clause.inst attempt.clause.mode attempt.success result) env

end Custody.Env
