import Custody.Expr.Printer
import Custody.Ref.Operand

/-!
# From expressions to references

`Expr.lower` normalizes an expression to the place or address it denotes, given what
each identifier stands for. An element `a[i]` has no identity of its own: where that is
allowed it counts as `*a`, elsewhere it is an error.

What identifiers stand for is a parameter, because the same expression is lowered in two
ways. In an attribute, a parameter's name stands for its position, and the result is a
template that calls instantiate later. In the function itself, a local that is known to
hold an address stands for that address. `Proofs/Contract/Binding` is about the two ways
being one: lowering with the arguments in place of the names, and lowering first and
putting the arguments in then, give the same object.
-/

set_option autoImplicit false

namespace Custody.Expr

/-- What an expression denotes. An error quotes the part of the expression where it
arose, written again by the printer, so that it reads the same whatever blanks and
parentheses the text had. -/
def lower (roots : String → Option Operand) (allowIndex : Bool) : Expr → Except PathError Operand
  | ident name =>
    match roots name with
    | some operand => .ok operand
    | none => .error (.unknownName name)
  | int value => .error (.unsupported (int value).render)
  | addrOf inner => do
    match ← lower roots allowIndex inner with
    | .place ref => return .address ref
    | .address _ => throw (.badAddress (addrOf inner).render)
  | deref inner => do
    let inner ← lower roots allowIndex inner
    return inner.deref
  | field base name => do
    match ← lower roots allowIndex base with
    | .place ref => return .place (.field ref name)
    | .address _ => throw (.badAddress (field base name).render)
  | index base position =>
    if allowIndex then do
      let base ← lower roots allowIndex base
      return base.deref
    else .error (.unsupported (index base position).render)

/-- The object an expression names: what it points to if it is `indirect`, else what it
denotes. An attribute may name a lock by the lock or by a pointer to it, and the type of
the expression decides which of the two is meant. -/
def objectNamed (roots : String → Option Operand) (indirect : Bool) (expr : Expr) :
    Except PathError Ref := do
  let operand ← expr.lower roots false
  return if indirect then operand.pointee else operand.object

end Custody.Expr
