import Custody.Capability.Registry
import Custody.Ref.Basic

/-!
# Capability instances and aliasing

An instance is a reference to a capability, with the capability's type where that is
known. `Instance.mayAlias` is false only for instances that are provably different
objects: a pointer may reach anything of the right type, while named objects and fields
of different names are apart.

The test on references is a walk down both paths at once, and has no access to what
pointers hold: it answers for every store at the same time. Types only ever separate.
Two instances with different known types are different objects, but an unknown type
matches any other, because an operand whose type could not be found may still be a
capability. In which sense the answer "apart" is right, and that no test on references
alone could say it more often, is in `Proofs/Capability/Alias`.
-/

set_option autoImplicit false

namespace Custody

/-- A reference to a capability and, where known, its type. The type takes no part in
what the capability is: states are kept by reference. -/
structure Instance where
  ref : Ref
  type? : Option CapId
deriving DecidableEq, Repr, Inhabited

/-- Whether two references may name the same object. A dereference may, whatever the
other one is, and so may the holder of a member or a parameter, for which anything can
stand. Fields are the same object only if their names and the objects they are fields of
may be. What is left are names of objects, and a field is never one of those. -/
def Ref.mayAlias : Ref → Ref → Bool
  | .deref _, _ | _, .deref _ => true
  | .self, _ | .param _, _ | _, .self | _, .param _ => true
  | .field a f, .field b g => f == g && mayAlias a b
  | .global a, .global b => a == b
  | .var a, .var b => a == b
  | .global _, .var _ | .var _, .global _ => false
  | .field _ _, .global _ | .field _ _, .var _ => false
  | .global _, .field _ _ | .var _, .field _ _ => false

/-- Whether two instances may be the same object. Instances of different known types are
not. -/
def Instance.mayAlias (a b : Instance) : Bool :=
  a.ref == b.ref ||
    match a.type?, b.type? with
    | some x, some y => x == y && a.ref.mayAlias b.ref
    | _, _ => a.ref.mayAlias b.ref

end Custody
