/-!
# Modes, accesses and held states

A capability is held in one of two modes, and an access to a guarded member asks for one
of them. What is known about a capability at a program point is one of four states: not
held, held in a mode, or unknown because paths or effects disagree.

Unknown is a state of its own and not a set of possible states. Where two paths disagree
nothing is left to build on: neither is a requirement met, nor may the capability be
taken, and no later path can make the state known again, only a later effect can. So
`HeldState.join` is flat, the three definite states lie side by side under `unknown`,
and a state changes at most once while it is joined with others. The bound on how long
the analysis runs counts on that (`Proofs/Env/Rank`).
-/

set_option autoImplicit false

namespace Custody

/-- Shared (read-like) or exclusive (write-like) access, shared first. -/
inductive Mode where
  | shared
  | exclusive
deriving DecidableEq, Repr, Inhabited, Ord

namespace Mode

def name : Mode → String
  | shared => "shared"
  | exclusive => "exclusive"

/-- Whether holding one mode meets a requirement of another. Exclusive meets both. -/
def satisfies (held required : Mode) : Bool := held == exclusive || required == shared

/-- What a message says of a capability that has to be held in a mode. -/
def requirement : Mode → String
  | shared => "held (at least shared)"
  | exclusive => "held exclusively"

end Mode

/-- How a member is accessed. -/
inductive Access where
  | read
  | write
deriving DecidableEq, Repr, Inhabited

namespace Access

def guardMode : Access → Mode
  | read => .shared
  | write => .exclusive

def verb : Access → String
  | read => "reading"
  | write => "writing"

end Access

/-- What is known about a capability at a program point. `unknown` covers all the
others, and is what is left where two paths do not agree. -/
inductive HeldState where
  | notHeld
  | heldShared
  | heldExclusive
  | unknown
deriving DecidableEq, Repr, Inhabited

namespace HeldState

def held : Mode → HeldState
  | .shared => heldShared
  | .exclusive => heldExclusive

/-- The mode in which a capability is provably held, so none for `unknown`. -/
def mode? : HeldState → Option Mode
  | heldShared => some .shared
  | heldExclusive => some .exclusive
  | notHeld | unknown => none

/-- Whether a capability is provably held in a mode that meets a requirement. A hold
that is only possible meets none. -/
def satisfies (state : HeldState) (required : Mode) : Bool :=
  state.mode?.any (·.satisfies required)

/-- What is known where two paths meet: what both agree on. A shared hold on one and an
exclusive one on the other give no hold that can be relied on. -/
def join (a b : HeldState) : HeldState := if a = b then a else unknown

/-- What a message says of a state where the capability should be held. For an unknown
state the message speaks of the failure that is possible, here that the capability is
missing, and in `describeHold` that it is there. -/
def describe : HeldState → String
  | notHeld => "not held"
  | heldShared => "held shared"
  | heldExclusive => "held exclusively"
  | unknown => "possibly not held"

/-- What a message says of a state where the capability should not be held. -/
def describeHold : HeldState → String
  | unknown => "possibly held"
  | state => state.describe

end HeldState

end Custody
