import Custody.Ref.Basic
import Custody.Text.Quote

/-!
# Places and addresses

An expression that names an object denotes either the object itself or its address.
`*&x` and `&*x` are then the same as `x`, because taking an address and dereferencing
only switch between the two.

There is no constructor for the address of an address, and none for a field of one.
Neither names an object, so both are errors (`PathError.badAddress`) at the step where
they would arise, and what comes after can take for granted that an operand stands for
exactly one object.

`Ref.instantiate` replaces what a path starts from: a contract's parameters by the
arguments of a call, a guard's holder by the object accessed. The steps after the start
are taken again on what was put in, and not copied. An argument `&x` in the place of a
pointer makes `*p` the object `x`, where copying would give `*&x`, which is another path
for the same object and would not be found in an environment.
-/

set_option autoImplicit false

namespace Custody

/-- What an expression denotes: an object, or the address of one. -/
inductive Operand where
  | place (ref : Ref)
  | address (ref : Ref)
deriving DecidableEq, Repr, Inhabited

namespace Operand

/-- What dereferencing gives: the object whose address it was, or what a pointer that is
stored somewhere points to. -/
def deref : Operand → Operand
  | address ref => place ref
  | place ref => place (.deref ref)

/-- The object meant when the operand is used as an object. For an address that is what
it is the address of, so that the name of a token stands for the token. -/
def object : Operand → Ref
  | place ref | address ref => ref

/-- The object meant when the operand is a pointer to it. It differs from `object` for a
pointer that is stored somewhere, which has to be followed. -/
def pointee : Operand → Ref
  | address ref => ref
  | place ref => .deref ref

end Operand

/-- Why an expression or a path names no object. -/
inductive PathError where
  | unknownName (name : String)
  /-- An integer, or an indexed element where elements have no identity. -/
  | unsupported (text : String)
  /-- The address of an address, or a field of one. -/
  | badAddress (text : String)
deriving DecidableEq, Repr

def PathError.message : PathError → String
  | unknownName name => Text.quoted name ++ " is not a declared parameter, local, field or global"
  | unsupported text => Text.quoted text ++ " has no stable identity (indexing or computed value)"
  | badAddress text => Text.quoted text ++ " takes the address of a non-object"

namespace Ref

/-- The operand a path denotes once `bind` has replaced what it starts from. A start
that `bind` is silent about stays as it is. -/
def bindRoot (bind : Ref → Option Operand) : Ref → Except PathError Operand
  | deref pointer => do
    let pointer ← bindRoot bind pointer
    return pointer.deref
  | field base name => do
    match ← bindRoot bind base with
    | .place ref => return .place (.field ref name)
    | .address ref => throw (.badAddress (ref.render ++ "." ++ name))
  | start => return (bind start).getD (.place start)

/-- The object a path names once `bind` has replaced what it starts from. A path that
comes out as an address names the object of it. -/
def instantiate (ref : Ref) (bind : Ref → Option Operand) : Except PathError Ref :=
  (ref.bindRoot bind).map Operand.object

end Ref

end Custody
