import Custody.Analysis.Context
import Custody.Attribute.Intrinsic
import Custody.Env.Check
import Custody.Env.Effects

/-!
# Calls

A call binds the callee's contract to its arguments, checks what the contract asks for,
and has the effects the contract states. The local that receives the result loses its
old value in between. Intrinsics have no contract of their own: their arguments say what
they do, and nothing is checked.

The order of these steps is what a call means. Arguments are evaluated before the result
is stored, so binding and checking use the environment before the call, and the old
value of the destination is still there. Effects come after the destination has lost it.
An effect can therefore name an object that is reached through the old value, and set a
state for a path that by then leads somewhere else; which calls do is in
`Proofs/Analysis/OldValue`.
-/

set_option autoImplicit false

namespace Custody.Context

/-- The callee's contract for given arguments. An argument that is missing, or names no
object, leaves its parameter unbound. -/
def boundContract (ctx : Context) (env : Env) (callee : String) (args : List String) :
    BoundContract :=
  (ctx.table.contractFor ctx.unit callee).bind callee fun
    | .param index => args[index]?.bind (ctx.operand? env)
    | _ => none

/-- What a call to an intrinsic with a capability does. Without one it does nothing, but
a release then may have hit anything. -/
def intrinsicContract (callee : String) (args : List String) (inst : Option Instance)
    (intrinsic : Intrinsic) : BoundContract :=
  let clause (mode : Mode) (inst : Instance) : BoundClause :=
    ⟨inst, mode, callee ++ "(" ++ ", ".intercalate args ++ ")"⟩
  match intrinsic, inst with
  | .acquire mode, some inst => { callee, acquires := [clause mode inst] }
  | .release mode, some inst => { callee, releases := [clause mode inst] }
  | .tryAcquire mode, some inst => { callee, tryAcquires := [⟨clause mode inst, true⟩] }
  | .assert mode, some inst => { callee, asserts := [clause mode inst] }
  | .release _, none => { callee, unresolvedReleases := [none] }
  | _, none => { callee }

/-- The result that the second argument of a try-acquire tells: a number or a local. A
local whose truth is known tells both, and then its truth is what counts. -/
def resultArgument (env : Env) (args : List String) : CallResult :=
  match args[1]?.bind fun arg => (Expr.parse arg).toOption with
  | none => {}
  | some expr =>
    match expr.asInt? with
    | some value => { value? := some (value != 0) }
    | none =>
      match expr.asIdent? with
      | some name => ⟨some name, env.constants.get? name⟩
      | none => {}

/-- The result of a call to an intrinsic. The local that receives it counts before the
argument. -/
def intrinsicResult (env : Env) (args : List String) (dest : Option String)
    (inst : Option Instance) : Intrinsic → CallResult
  | .tryAcquire _ =>
    if inst.isSome then
      let result := resultArgument env args
      { result with local? := dest.or result.local? }
    else { local? := dest }
  | _ => { local? := dest }

/-- The environment after a call with a contract. A returned capability is what the
destination points to from then on. -/
def finishCall (env : Env) (contract : BoundContract) (result : CallResult) (dest : Option String) :
    Env :=
  match dest with
  | none => env.apply contract result
  | some name =>
    let after := (env.rebind name).apply contract result
    match contract.returns with
    | some clause => after.bind name clause.inst.ref
    | none => after

/-- The environment after a call, and what is wrong with the call. A name that is an
intrinsic is one, even if a function of that name is declared. -/
def call (ctx : Context) (env : Env) (callee : String) (args : List String)
    (dest : Option String) : Env × List Violation :=
  match Intrinsic.ofName? callee with
  | some intrinsic =>
    let inst := args.head?.bind (ctx.instance? env)
    let contract := intrinsicContract callee args inst intrinsic
    (finishCall env contract (intrinsicResult env args dest inst intrinsic) dest, [])
  | none =>
    let contract := ctx.boundContract env callee args
    (finishCall env contract { local? := dest } dest, env.violations contract)

end Custody.Context
