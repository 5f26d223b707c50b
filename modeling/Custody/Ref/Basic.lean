/-!
# References to objects

A reference is a normalized path to an object: it starts from a named object, from a
parameter of a contract, or from the object that holds a guarded member, and goes on by
dereferences and fields. Two expressions name the same capability exactly when their
references are equal.

One type serves for three kinds of paths, which differ in what they start from. Paths of
a function under analysis start from a global or a variable. Those of a contract may
start from `param`, because a contract is stated once for all calls, and those of a
guard from `self`, because a guard is stated once for all objects of a struct. Both are
templates: `Ref.instantiate` (`Ref/Operand`) puts an argument or an object in the place
of the start, and from then on the path is one of the function's own. Parameters go by
position, not by name, so that two declarations that name them differently have the same
contract.

The text of a reference is the expression that names it, with as few parentheses as the
reader of expressions needs (`Proofs/Ref/Printing`): that is how a message speaks of a
capability, and how a finding is recognized in a later run.
-/

set_option autoImplicit false

namespace Custody

/-- A normalized path to an object. There is no address in it: `*&x` has been resolved
before there is a path (`Ref/Operand`). -/
inductive Ref where
  /-- A named global object or token. -/
  | global (name : String)
  /-- A parameter or local of the function under analysis. -/
  | var (name : String)
  /-- The object that holds a guarded member; only guards start from it. -/
  | self
  /-- A parameter by its position; only contracts start from it. -/
  | param (index : Nat)
  | deref (pointer : Ref)
  | field (base : Ref) (name : String)
deriving DecidableEq, Repr, Inhabited

namespace Ref

def root : Ref → Ref
  | deref pointer => root pointer
  | field base _ => root base
  | start => start

/-- The variable a path starts from. What is known of a path is lost when the variable
it starts from is assigned, however many steps the path has. -/
def rootVariable? : Ref → Option String
  | var name => some name
  | deref pointer => rootVariable? pointer
  | field base _ => rootVariable? base
  | global _ | self | param _ => none

/-- Whether a path starts from a variable. -/
def isRootedAt (ref : Ref) (name : String) : Bool := ref.rootVariable? == some name

/-- Whether a path starts from a parameter by position. A clause whose reference still
does, after the arguments of a call were put in, does not speak of an object of the
caller. -/
def isTemplate (ref : Ref) : Bool :=
  match ref.root with
  | param _ => true
  | _ => false

/-- The text of a reference. A field of a dereference is written with an arrow, and
parentheses stand around a dereferenced path that has a step itself. -/
def render : Ref → String
  | global name | var name => name
  | self => "self"
  | param index => "$" ++ toString index
  | deref (deref pointer) => "*(" ++ render (deref pointer) ++ ")"
  | deref (field base name) => "*(" ++ render (field base name) ++ ")"
  | deref pointer => "*" ++ render pointer
  | field (deref (deref pointer)) name => "(" ++ render (deref pointer) ++ ")->" ++ name
  | field (deref pointer) name => render pointer ++ "->" ++ name
  | field base name => render base ++ "." ++ name

end Ref

end Custody
