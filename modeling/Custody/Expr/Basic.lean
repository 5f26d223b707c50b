/-!
# Access-path expressions

The small expression language in which capabilities are named: identifiers, integers,
address-of, dereference, field selection and indexing. A selection through a pointer,
`a->f`, is not a form of its own: it is the field `f` of the dereference of `a`.

With that, there is one tree for what can be written in two ways, and everything after
the reader has one case less. The price is that the printer has to find its way back to
the arrow, which it does by looking one step further down.

Integers stand in the language although no capability is one, because the same reader
serves for the values that attributes and assignments mention (`asInt?`). That they name
nothing is said when an expression is lowered (`Expr/Lowering`).
-/

set_option autoImplicit false

namespace Custody

inductive Expr where
  | ident (name : String)
  | int (value : Int)
  | addrOf (inner : Expr)
  | deref (inner : Expr)
  | field (base : Expr) (name : String)
  | index (base position : Expr)
deriving DecidableEq, Repr, Inhabited

namespace Expr

/-- The integer an expression spells: a literal, or `true` for 1 and `false` for 0. -/
def asInt? : Expr → Option Int
  | int value => some value
  | ident name => if name = "true" then some 1 else if name = "false" then some 0 else none
  | _ => none

/-- The name an expression consists of. An assignment of one local to another is
recognized by it. -/
def asIdent? : Expr → Option String
  | ident name => some name
  | _ => none

/-- Whether the outermost form is written in front of its operand. -/
def isUnary : Expr → Bool
  | addrOf _ | deref _ => true
  | _ => false

/-- Whether the expression is a single word, which a dereference needs no parentheses
around. -/
def isAtom : Expr → Bool
  | ident _ | int _ => true
  | _ => false

end Expr

end Custody
