import Custody.Capability.Mode

/-!
# Names with a meaning of their own

Calls to some functions are understood without a declaration: the intrinsics, whose
first argument is the capability they act on, and the two markers that switch checking
off and on again.

Both are recognized by name alone, before anything is looked up. Intrinsics are what the
bodies of locking functions are made of: without them no function could keep a contract
that takes a capability, except by calling another one that does. So they are taken at
their word. Nothing is checked of them, and their effects are those of a contract with
one clause (`Context.intrinsicContract` in `Analysis/Call`).

There are two ways to switch checks off, and `checksEnabled` is where they meet. Exempt
blocks are statements and are counted by the walk over statements. Regions between
markers follow the path, may begin in one block and end in another, and are counted in
the environment.
-/

set_option autoImplicit false

namespace Custody

/-- A helper call whose only effect is on the capability it is given. -/
inductive Intrinsic where
  | acquire (mode : Mode)
  | release (mode : Mode)
  /-- Acquires when its second argument, which is also its result, is true. -/
  | tryAcquire (mode : Mode)
  | assert (mode : Mode)
deriving DecidableEq, Repr, Inhabited

/-- The names of the intrinsics. -/
def Intrinsic.spellings : List (String × Intrinsic) :=
  [("__acquire", .acquire .exclusive), ("__acquire_cap", .acquire .exclusive),
   ("__acquire_shared", .acquire .shared), ("__acquire_shared_cap", .acquire .shared),
   ("__release", .release .exclusive), ("__release_cap", .release .exclusive),
   ("__release_shared", .release .shared), ("__release_shared_cap", .release .shared),
   ("__cond_acquire", .tryAcquire .exclusive), ("__try_acquire_cap", .tryAcquire .exclusive),
   ("__cond_acquire_shared", .tryAcquire .shared),
   ("__try_acquire_shared_cap", .tryAcquire .shared),
   ("__assert_cap", .assert .exclusive), ("__assert_shared_cap", .assert .shared)]

def Intrinsic.ofName? (callee : String) : Option Intrinsic := spellings.lookup callee

/-- A call that opens or closes a region without checks. It has an effect even where
checks are off, since otherwise no region could be closed. -/
inductive Marker where
  | disable
  | enable
deriving DecidableEq, Repr, Inhabited

def Marker.ofName? (callee : String) : Option Marker :=
  [("disable_capability_analysis", disable), ("enable_capability_analysis", enable)].lookup callee

/-- Whether checks run: inside no exempt block (`exempt` counts those around) and with
no marker region open on the path (`regions` counts those). -/
def checksEnabled (exempt regions : Nat) : Bool := exempt == 0 && regions == 0

end Custody
