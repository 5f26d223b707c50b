import Custody.Contract.Binding
import Custody.Env.Basic
import Custody.Expr.Lowering
import Custody.Expr.Parser
import Custody.Table.Basic

/-!
# What a function body can see

The context of an analysis: the table, the unit and declaration of the function, the
types of its variables, and its own contract in terms of them. With an environment it
says what names mean: a local that is known to point to an object stands for the
object's address.

All of it but the environment is fixed for a body, which is why it is one record that
everything in `Analysis` takes first. The types of variables are read once, when the
context is made. The own contract is bound once as well, with each parameter standing
for the variable of its name; a parameter that is assigned in the body still has the
name, and the contract then speaks of the new object. So a return is checked against the
names, and not against what the caller passed.
-/

set_option autoImplicit false

namespace Custody

/-- The function under analysis and all it can see. It is the same at all points of a
body: what changes from point to point is the environment. -/
structure Context where
  table : Table
  unit : String
  decl : FunctionDecl
  /-- The types of parameters and locals. -/
  vars : FinMap String CType
  /-- The function's own contract. -/
  own : BoundContract

namespace Context

/-- What a parameter by position stands for in the body: the variable of its name. This
is how a function's own contract, stated for callers, is read from the inside. -/
def ownRoot (decl : FunctionDecl) : Ref → Option Operand
  | .param index => decl.params[index]?.map (.place <| .var ·.name)
  | _ => none

/-- The context of a function. A local hides a parameter of its name, since there is one
variable under each name. -/
def ofDecl (table : Table) (unit : String) (decl : FunctionDecl) : Context :=
  { table, unit, decl
    vars := FinMap.ofList ((decl.params ++ decl.locals).map fun v => (v.name, CType.parse v.type))
    own := (table.contractFor unit decl.name).bind decl.name (ownRoot decl) }

/-- What a name means at a program point. A binding comes first, then variables, then
what is global: this is the one place where the meaning of a name depends on the
path. -/
def root (ctx : Context) (env : Env) (name : String) : Option Operand :=
  match env.bindings.get? name with
  | some target => some (.address target)
  | none =>
    if ctx.vars.contains name then some (.place (.var name)) else ctx.table.decls.globalRoot name

def rootType (ctx : Context) : Ref → Option CType
  | .var name => ctx.vars.get? name
  | _ => none

def typeOf (ctx : Context) (ref : Ref) : Except TypeError CType :=
  ctx.table.decls.typeOf ctx.rootType ref

def operand? (ctx : Context) (env : Env) (text : String) : Option Operand := do
  let expr ← (Expr.parse text).toOption
  (expr.lower (ctx.root env) false).toOption

/-- The capability a text names. Where its type is unknown it is taken to be a pointer
to one. -/
def instance? (ctx : Context) (env : Env) (text : String) : Option Instance := do
  let operand ← ctx.operand? env text
  match (ctx.table.decls.typeOfOperand ctx.rootType operand).toOption with
  | none => return ⟨operand.pointee, none⟩
  | some type =>
    let ref := if type.pointers > 0 then operand.pointee else operand.object
    return ⟨ref, ctx.table.decls.capabilityOf type⟩

end Context

end Custody
