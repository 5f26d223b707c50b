import Custody.Analysis.Access

/-!
# Assignments

An assignment to a variable tells something about it: its truth, the object it points
to, or that it is a copy of another variable. An assignment to anything else is a write
access.

Three things can be learned, and the first that applies is (`track`). A number has a
truth. A value that names an object, an address or a pointer, makes the variable a name
for the object, so that capabilities reached through it are the same as those of the
object. A copy of a variable that is neither takes over what is known of it, above all
the attempts that wait for it, so that a result may be tested through a copy.

What is learned is read off the environment before the assignment, and put into the one
in which the variable has lost its old value. A target that is reached through the old
value would be wrong there, and is not followed.
-/

set_option autoImplicit false

namespace Custody

/-- What an assigned value tells about the variable. It is worked out before the
variable loses its old value, and put into the environment after. -/
inductive Tracked where
  | nothing
  | constant (value : Bool)
  | binding (target : Ref)
  | copy (source : String)
deriving DecidableEq, Repr, Inhabited

namespace Context

/-- Whether evaluating an expression reads a member or global. Taking an address reads
nothing, and neither does the name of a variable. -/
def readsMember (ctx : Context) : Expr → Bool
  | .field _ _ | .deref _ | .index _ _ => true
  | .ident name => !ctx.vars.contains name
  | .int _ | .addrOf _ => false

/-- The object that a value points to. A place is a pointer only if its type says so;
where the type is not known nothing is learned. -/
def target? (ctx : Context) (env : Env) (expr : Expr) : Option Ref :=
  match expr.lower (ctx.root env) false with
  | .ok (.address target) => some target
  | .ok (.place ref) =>
    match ctx.typeOf ref with
    | .ok type => if type.pointers > 0 then some (.deref ref) else none
    | .error _ => none
  | .error _ => none

/-- What an assigned value tells about the variable `dest`. An object reached through
the old value of `dest` is not followed. -/
def track (ctx : Context) (env : Env) (dest : String) (expr : Expr) : Tracked :=
  match expr.asInt? with
  | some value => .constant (value != 0)
  | none =>
    match (ctx.target? env expr).filter (!·.isRootedAt dest) with
    | some target => .binding target
    | none =>
      match expr.asIdent? with
      | some name => if name ≠ dest && ctx.vars.contains name then .copy name else .nothing
      | none => .nothing

def learn (env : Env) (dest : String) : Tracked → Env
  | .nothing => env
  | .constant value => env.setConstant dest value
  | .binding target => env.bind dest target
  | .copy source => env.copyLocal dest source

/-- The environment after an assignment, and what is wrong with the accesses it makes:
first those of its value, then that of its destination. -/
def assign (ctx : Context) (env : Env) (dest value : String) : Env × List Violation :=
  let expr := (Expr.parse value).toOption
  let reads := match expr with
    | some expr => if ctx.readsMember expr then ctx.checkExpr env .read expr else []
    | none => []
  if ctx.vars.contains dest then
    let tracked := (expr.map (ctx.track env dest)).getD .nothing
    (learn (env.rebind dest) dest tracked, reads)
  else (env, reads ++ ctx.checkPath env .write dest)

end Context

end Custody
