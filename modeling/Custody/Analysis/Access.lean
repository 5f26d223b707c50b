import Custody.Analysis.Context
import Custody.Env.Check

/-!
# Member accesses

An access to a member touches every guarded member on its path. A member that is part of
another is accessed together with it, in the same way; of a pointer on the path only the
value is read.

So a write to `a.b.c` writes to `a.b` and to `a`, and needs their guards exclusively,
while a write to `p->c` only reads `p`. Guards come in two sorts, one for a member and
one for what it points to, and each step of a path asks for one of them: a field for the
guard of the member, a dereference for that of the pointee.

An access that cannot be understood is not reported. A path through a type that is not
known, or through something that is no member, has no guard that could be looked up; and
a guard that cannot be put in terms of the object accessed names nothing.
-/

set_option autoImplicit false

namespace Custody.Context

/-- The member a reference names, and the object that holds it, if it is a field. A
field has a guard only where the type of its holder is known to be a structure: guards
are declared with structures, not with objects. -/
def member? (ctx : Context) : Ref → Option (Member × Option Ref)
  | .field base name =>
    match ctx.typeOf base with
    | .ok type => if type.pointers = 0 then some (.field type.base name, some base) else none
    | .error _ => none
  | .global name => some (.global name, none)
  | _ => none

/-- The capability a guard stands for. That of a field starts from the object that holds
it. -/
def guardRef (guard : Guard) : Option Ref → Except PathError Ref
  | none => .ok guard.template
  | some holder => guard.template.instantiate fun
    | .self => some (.place holder)
    | _ => none

/-- What is wrong with accessing `accessed` under the guard of a member. The message
speaks of what is accessed, which for a guard of the pointee is not the member that has
the guard. -/
def checkGuard (env : Env) (access : Access) (accessed : Ref) (guard : Guard)
    (holder : Option Ref) : List Violation :=
  match guardRef guard holder with
  | .error _ => []
  | .ok ref =>
    let state := env.state ref
    if state.satisfies access.guardMode then []
    else [⟨.unguarded access accessed ref state, guard.text⟩]

/-- What is wrong with accessing `accessed`, which is `member`, or what it points to.
Each of the two has a guard of its own, and only that is looked up. -/
def checkMember (ctx : Context) (env : Env) (access : Access) (accessed member : Ref)
    (pointee : Bool) : List Violation :=
  match ctx.member? member with
  | none => []
  | some (declared, holder) =>
    match ctx.table.guard? declared pointee with
    | none => []
    | some guard => checkGuard env access accessed guard holder

/-- What is wrong with an access to an object, along its whole path. The recursion
follows the path from its end to its start, and turns to reading at the first
dereference. -/
def checkPlace (ctx : Context) (env : Env) (access : Access) : Ref → List Violation
  | .field base name =>
    ctx.checkMember env access (.field base name) (.field base name) false
      ++ checkPlace ctx env access base
  | .deref pointer =>
    ctx.checkMember env access (.deref pointer) pointer true
      ++ checkPlace ctx env .read pointer
  | .global name => ctx.checkMember env access (.global name) (.global name) false
  | .var _ | .self | .param _ => []

/-- What is wrong with an access through an expression; nothing if it names no
object. -/
def checkExpr (ctx : Context) (env : Env) (access : Access) (expr : Expr) : List Violation :=
  match expr.lower (ctx.root env) true with
  | .ok operand => ctx.checkPlace env access operand.object
  | .error _ => []

def checkPath (ctx : Context) (env : Env) (access : Access) (path : String) : List Violation :=
  match Expr.parse path with
  | .ok expr => ctx.checkExpr env access expr
  | .error _ => []

end Custody.Context
