import Custody.Capability.Instance
import Custody.Capability.Mode

/-!
# Bound contracts

A contract at a call site: each clause speaks of a capability of the caller. Clauses
that could not be bound are left out, but a release that could not be bound is
remembered by its type, because it may have released anything of that type.

A bound contract is all that checks and effects of a call see (`Env/Check`,
`Env/Effects`). It is also what an intrinsic is turned into, and the form in which a
function has its own contract, where parameters stand for the variables of their names.
So there is one theory of what a contract does, whichever of the three it comes from.
-/

set_option autoImplicit false

namespace Custody

/-- A clause about a capability of the caller. -/
structure BoundClause where
  inst : Instance
  mode : Mode
  /-- The attribute as written. -/
  text : String
deriving DecidableEq, Repr, Inhabited

structure BoundAttempt where
  clause : BoundClause
  /-- The truth of the result on which the capability is held. -/
  success : Bool
deriving DecidableEq, Repr, Inhabited

/-- A contract about capabilities of the caller. -/
structure BoundContract where
  callee : String
  requires : List BoundClause := []
  excludes : List BoundClause := []
  acquires : List BoundClause := []
  releases : List BoundClause := []
  tryAcquires : List BoundAttempt := []
  asserts : List BoundClause := []
  /-- The capability whose address the callee returns. -/
  returns : Option BoundClause := none
  /-- The types of the releases that could not be bound, where known. -/
  unresolvedReleases : List (Option CapId) := []
deriving DecidableEq, Repr, Inhabited

/-- Where the result of a call goes, and its truth where that is known. The truth is
only known for intrinsics, which have it as an argument. -/
structure CallResult where
  local? : Option String := none
  value? : Option Bool := none
deriving DecidableEq, Repr, Inhabited

end Custody
