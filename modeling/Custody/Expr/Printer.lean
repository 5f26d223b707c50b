import Custody.Expr.Basic

/-!
# Expressions as text

`Expr.render` writes an expression so that reading it again gives the same expression.
Parentheses stand around a dereferenced expression unless it is a single word, and
around a unary expression that something is selected from.

The parentheses around a dereferenced path are not needed for reading: `*a.f` would be
read as the dereference of `a.f`. They are there for people, who know languages where
the star binds more tightly. That the text can be read back, and for which expressions,
is in `Proofs/Expr/Printing`.
-/

set_option autoImplicit false

namespace Custody.Expr

def parenthesize (needed : Bool) (text : String) : String :=
  if needed then "(" ++ text ++ ")" else text

/-- The text of an expression. A field of a dereference is written with an arrow. -/
def render : Expr → String
  | ident name => name
  | int value => toString value
  | addrOf inner => "&" ++ render inner
  | deref inner => "*" ++ parenthesize (!inner.isAtom) (render inner)
  | field (deref pointer) name => parenthesize pointer.isUnary (render pointer) ++ "->" ++ name
  | field base name => parenthesize base.isUnary (render base) ++ "." ++ name
  | index base position =>
    parenthesize base.isUnary (render base) ++ "[" ++ render position ++ "]"

end Custody.Expr
