/-!
# Capability types

Capability types are nominal. A registry numbers them in the order they are first
declared; to declare one again with the same kind changes nothing, with the other kind
it is a collision.

Everything after the declarations speaks of types by their numbers, and compares numbers
only. So nothing but names and kinds of this file is ever printed, and the numbers,
which depend on the order of the units, cannot be seen in a report. That is proved, not
assumed: `Proofs/Renumber` carries every function of the analysis through an exchange of
the numbers.
-/

set_option autoImplicit false

namespace Custody

/-- How a capability type is declared: backed by objects of a struct, or an abstract
token. -/
inductive CapKind where
  | struct
  | token
deriving DecidableEq, Repr, Inhabited

def CapKind.name : CapKind → String
  | struct => "struct"
  | token => "token"

/-- The number of a declared capability type. Numbers follow the order of declarations,
so that another order of the units gives other numbers to the same types. -/
structure CapId where
  index : Nat
deriving DecidableEq, Repr, Inhabited

/-- The declared capability types, in the order of their numbers. A number is a position
in the list. -/
structure Registry where
  types : List (String × CapKind)
deriving DecidableEq, Repr, Inhabited

namespace Registry

def empty : Registry := ⟨[]⟩

def lookup (registry : Registry) (name : String) : Option CapId :=
  (registry.types.findIdx? (·.1 = name)).map CapId.mk

/-- The name of a number. Numbers come from `declare` or `lookup` of the same registry,
so that the empty name is never seen; a total function spares its callers the case. -/
def name (registry : Registry) (id : CapId) : String :=
  (registry.types[id.index]?.map (·.1)).getD ""

def kind (registry : Registry) (id : CapId) : CapKind :=
  (registry.types[id.index]?.map (·.2)).getD .struct

/-- The number of a type declared with a kind, and the registry then; the kind it was
declared with before if that is the other one. -/
def declare (registry : Registry) (name : String) (kind : CapKind) :
    Except CapKind (CapId × Registry) :=
  match registry.lookup name with
  | some id =>
    if registry.kind id = kind then .ok (id, registry) else .error (registry.kind id)
  | none => .ok (⟨registry.types.length⟩, ⟨registry.types ++ [(name, kind)]⟩)

end Registry

end Custody
