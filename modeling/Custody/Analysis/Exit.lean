import Custody.Analysis.Context
import Custody.Env.Check

/-!
# Returns

What a function's own contract asks of the environment where it returns: acquired
capabilities are held, required ones still are unless they are released, released ones
are not; a known result of a try-acquire agrees with the state; and nothing else is held
that was not only asserted.

These are the obligations at calls seen from the other side, and together they make
calls and returns fit: what a caller may count on after a call is what a return has to
deliver (`Proofs/Analysis/Return`). An unknown state is judged against the function,
with one exception: at a return of the failure of a try-acquire, only a hold that is
certain is reported. If it is not known what is returned, try-acquires are not checked.

Assertions are left out of the leaks because nobody took what was asserted. The mark
stays on a capability that is asserted and then tried for, which can hide a leak
(`Proofs/Analysis/TryAcquire`).
-/

set_option autoImplicit false

namespace Custody

namespace BoundContract

def checkAcquired (own : BoundContract) (env : Env) (clause : BoundClause) : Option Violation :=
  let state := env.state clause.inst.ref
  if state.satisfies clause.mode then none
  else some ⟨.notAcquired own.callee clause.inst.ref clause.mode state, clause.text⟩

/-- What is wrong with a required capability at a return. One that is also released is
up to `checkGone`; it has to be released as the same instance, of the same type. -/
def checkKept (own : BoundContract) (env : Env) (clause : BoundClause) : Option Violation :=
  let state := env.state clause.inst.ref
  if own.releases.any (·.inst = clause.inst) || state.satisfies clause.mode then none
  else some ⟨.notKept own.callee clause.inst.ref clause.mode state, clause.text⟩

def checkGone (own : BoundContract) (env : Env) (clause : BoundClause) : Option Violation :=
  let ref := clause.inst.ref
  match env.state ref with
  | .notHeld => none
  | .unknown => some ⟨.maybeNotReleased own.callee ref, clause.text⟩
  | state => some ⟨.notReleased own.callee ref state, clause.text⟩

def checkAttempt (own : BoundContract) (env : Env) (value : Bool) (attempt : BoundAttempt) :
    Option Violation :=
  let ref := attempt.clause.inst.ref
  let state := env.state ref
  if value = attempt.success then
    if state.satisfies attempt.clause.mode then none
    else some ⟨.attemptNotAcquired own.callee value ref state, attempt.clause.text⟩
  else if state.mode?.isSome then
    some ⟨.attemptStillHeld own.callee value ref state, attempt.clause.text⟩
  else none

/-- The capabilities that a contract lets a function hold, or lack, at a return. These
have checks of their own, so that they are never found as leaks. -/
def declared (own : BoundContract) : List Ref :=
  (own.acquires ++ own.requires ++ own.releases ++ own.tryAcquires.map (·.clause)).map (·.inst.ref)

/-- What is held at a return without a word about it in the contract. There is no test
for facts that say `notHeld`, because no environment has one: `Env.set` and the join
erase such a fact instead of storing it, and every environment that the analysis comes
to is canonical (`Env.Built.canonical` in `Proofs/Env/Lattice`). So each entry of `held`
is a hold or a possible one. -/
def leaks (own : BoundContract) (env : Env) : List Violation :=
  (env.held.entries.filter fun (ref, _) => !env.isAsserted ref && ref ∉ own.declared).map
    fun (ref, fact) => ⟨.leaked own.callee ref fact.state, ""⟩

/-- The truth of a returned value, where it is known. Where it is not, try-acquires are
not checked: neither outcome could be held against the function. -/
def returnedTruth? (env : Env) (text : String) : Option Bool := do
  let expr ← (Expr.parse text).toOption
  match expr.asInt? with
  | some value => return value != 0
  | none => env.constants.get? (← expr.asIdent?)

/-- What is wrong with an environment at a return, with all regions closed. Each kind of
clause has its check, and leaks come last. -/
def checkReturn (own : BoundContract) (env : Env) (returned : Option String) : List Violation :=
  own.acquires.filterMap (own.checkAcquired env)
    ++ own.requires.filterMap (own.checkKept env)
    ++ own.releases.filterMap (own.checkGone env)
    ++ (match returned.bind (returnedTruth? env) with
      | some value => own.tryAcquires.filterMap (own.checkAttempt env value)
      | none => [])
    ++ own.leaks env

end BoundContract

end Custody
