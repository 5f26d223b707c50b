import Custody.Contract.Basic
import Custody.Contract.Bound
import Custody.Ref.Operand

/-!
# Binding a contract

`Contract.bind` turns the templates of a contract into capabilities of the caller, given
what its parameters stand for.

A clause is dropped when the argument for its parameter names no object, and the call is
checked by what is left. For most clauses that only means that nothing is known about
them. A release is different: something was given up, and to forget it would leave a
hold standing that may be gone. So of releases the type is kept, and the effect of the
call makes every hold of that type uncertain (`Env.releaseUnresolved`).
-/

set_option autoImplicit false

namespace Custody

/-- The clause about a capability of the caller, unless a parameter it needs stands for
nothing. A parameter for which there is no argument stays in the path, which then is
still a template. -/
def Clause.bind? (clause : Clause) (binder : Ref → Option Operand) : Option BoundClause :=
  match clause.template.instantiate binder with
  | .ok ref => if ref.isTemplate then none else some ⟨⟨ref, clause.type⟩, clause.mode, clause.text⟩
  | .error _ => none

def AttemptClause.bind? (attempt : AttemptClause) (binder : Ref → Option Operand) :
    Option BoundAttempt :=
  (attempt.clause.bind? binder).map (⟨·, attempt.success⟩)

/-- A contract about capabilities of the caller. Clauses that cannot be bound are left
out; of a release its type is kept. -/
def Contract.bind (contract : Contract) (callee : String) (binder : Ref → Option Operand) :
    BoundContract :=
  { callee
    requires := contract.requires.filterMap (·.bind? binder)
    excludes := contract.excludes.filterMap (·.bind? binder)
    acquires := contract.acquires.filterMap (·.bind? binder)
    releases := contract.releases.filterMap (·.bind? binder)
    tryAcquires := contract.tryAcquires.filterMap (·.bind? binder)
    asserts := contract.asserts.filterMap (·.bind? binder)
    returns := contract.returns.bind (·.bind? binder)
    unresolvedReleases :=
      (contract.releases.filter fun clause => (clause.bind? binder).isNone).map (some ·.type) }

end Custody
