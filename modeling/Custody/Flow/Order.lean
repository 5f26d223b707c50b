/-!
# The order in which blocks are visited

`reversePostorder` numbers the vertices that can be reached from an entry so that a
vertex comes before its successors, except where a cycle leads back. It is a depth-first
walk with an explicit stack, each entry of which holds the successors that are still to
be followed.

The stack is explicit because a graph can be deep, and because the walk is then a loop:
one state, one step, and invariants that a step keeps (`Proofs/Flow/Order`). A recursive
walk that marks vertices on its way would have to hand the marks from one call to the
next, and its proofs would be about what a call does to them.

The number of steps is bounded by counting, not by measuring: each step completes a
vertex or follows an edge, and both happen once at most.
-/

set_option autoImplicit false

namespace Custody.Flow

/-- The walk from a stack of vertices, each with the successors not yet followed. A
vertex is put in front of `order` once all its successors are done. -/
def walk (successors : Nat → List Nat) :
    Nat → List (Nat × List Nat) → List Nat → List Nat → List Nat
  | 0, _, _, order => order
  | _ + 1, [], _, order => order
  | steps + 1, (vertex, []) :: stack, seen, order =>
    walk successors steps stack seen (vertex :: order)
  | steps + 1, (vertex, next :: rest) :: stack, seen, order =>
    if next ∈ seen then walk successors steps ((vertex, rest) :: stack) seen order
    else
      walk successors steps ((next, successors next) :: (vertex, rest) :: stack)
        (next :: seen) order

/-- The steps a walk needs: one for every vertex and one for every edge, and one to find
the stack empty. -/
def walkSteps (successors : Nat → List Nat) (size : Nat) : Nat :=
  size + ((List.range size).flatMap successors).length + 1

/-- The vertices that can be reached from an entry, in reverse order of their completion
by a depth-first walk. The vertices are the numbers below `size`. -/
def reversePostorder (successors : Nat → List Nat) (size entry : Nat) : List Nat :=
  walk successors (walkSteps successors size) [(entry, successors entry)] [entry] []

end Custody.Flow
