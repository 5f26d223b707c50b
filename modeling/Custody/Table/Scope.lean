import Custody.Expr.Lowering
import Custody.Table.Declarations

/-!
# Resolving the arguments of attributes

An attribute's arguments are read in the scope of what it is attached to: a function
knows its parameters, a structure its fields, and every scope the globals.
`Declarations.resolve` finds the template an argument denotes and its capability type; a
pointer to a capability names what it points to.

What only a scope knows are two things, the meaning of its names and the types of what
they start from, and these are the two functions on `Scope`. All the rest is the same
for the three. That a template which was resolved stands for an object of the type it
was resolved with, in whatever it is instantiated, is `Proofs/Table/Templates`.
-/

set_option autoImplicit false

namespace Custody

/-- What an attribute is attached to. A structure goes by its name: its fields are among
the declarations. -/
inductive Scope where
  | function (decl : FunctionDecl)
  | struct (name : String)
  | global
deriving Inhabited

namespace Scope

/-- What a name means that only this scope knows. A field of a structure means that of
the object which holds the guarded member. -/
def ownRoot (decls : Declarations) : Scope → String → Option Operand
  | function decl, name => (decl.paramIndex? name).map (.place <| .param ·)
  | struct owner, name =>
    if (decls.fieldType? owner name).isSome then some (.place (.field .self name)) else none
  | global, _ => none

/-- What a name means in a scope; its own names hide global ones. -/
def root (decls : Declarations) (scope : Scope) (name : String) : Option Operand :=
  (scope.ownRoot decls name).or (decls.globalRoot name)

def rootType : Scope → Ref → Option CType
  | function decl, .param index => decl.params[index]?.map (CType.parse ·.type)
  | struct owner, .self => some (.object owner)
  | _, _ => none

end Scope

namespace Declarations

/-- The capability that an argument names in a scope: its template and its type. A
capability and a pointer to one both name it; a pointer to a pointer is refused. -/
def resolve (decls : Declarations) (scope : Scope) (expr : Expr) :
    Except ClauseError (Ref × CapId) := do
  let operand ← (expr.lower (scope.root decls) false).mapError .badPath
  let type ← (decls.typeOfOperand scope.rootType operand).mapError .untyped
  if type.pointers > 1 then throw (.indirect expr type)
  match decls.registry.lookup type.base with
  | none => throw (.notCapability expr type)
  | some id => return (if type.pointers > 0 then operand.pointee else operand.object, id)

/-- The capabilities that the arguments of an attribute name, and the problems with the
others; a fatal problem is an error. -/
def resolveAll (decls : Declarations) (scope : Scope) (written : String) :
    List Expr → Except ClauseError (List (Ref × CapId) × List Problem)
  | [] => .ok ([], [])
  | arg :: rest =>
    match decls.resolve scope arg with
    | .ok found => do
      let (more, problems) ← decls.resolveAll scope written rest
      return (found :: more, problems)
    | .error error =>
      if error.isFatal then .error error
      else do
        let (more, problems) ← decls.resolveAll scope written rest
        return (more, .unresolved written error :: problems)

end Declarations

end Custody
