import Custody.Capability.Instance
import Custody.Capability.Mode
import Custody.FinMap
import Custody.Ref.Order

/-!
# Environments

An environment is what is known at a program point: which capabilities are held, which
holds are only asserted, which try-acquires wait for their result to be tested, what the
locals point to and which of them have a known truth value, and how many regions without
checks are open.

It never claims more than holds on every path: a capability it does not mention is not
held, and `unknown` means that nothing can be said. Environments are kept canonical: no
fact says `notHeld`, and no local has an empty list of attempts. Equal environments are
then those that answer every question alike, which is `built_eq_iff` in
`Proofs/Env/Answers`. The iteration over blocks stops when an entry state does not
change, and it is for this that equality has to mean so much.

## What is kept beside the states

* An assertion makes a capability count as held without anyone having taken it. It must
  not be reported as still held at a return, so such holds are marked.
* A try-acquire leaves the state unknown and an `Attempt` with the local that has the
  result. Testing the local decides the state, which is why an attempt remembers the
  state before it: that is the state again if it failed.
* Bindings and constants are what locals are known to hold. They decide which capability
  an argument names and which way a test goes, and never depend on what is held.

## Regions without checks

Regions are counted, not stacked, because markers have no names that could be matched.
The count has no upper end here. A counter of 32 bits tells the same as long as fewer
than `2 ^ 32` regions are open at a time, and a body has to have that many markers to
open more: where paths meet the smaller count is taken, so that going around a loop adds
nothing to it.
-/

set_option autoImplicit false

namespace Custody

/-- What is known about a capability that is not plainly not held. The type is the last
one that was seen with it, and stays when the state becomes unknown. -/
structure Fact where
  state : HeldState
  type? : Option CapId
deriving DecidableEq, Repr, Inhabited

/-- A try-acquire whose result is in a local and has not been tested yet. Until then the
state of its capability is unknown. -/
structure Attempt where
  inst : Instance
  mode : Mode
  /-- The truth of the local on which the capability is held. -/
  success : Bool
  /-- The state before the attempt, which is the state again if it failed. -/
  prior : HeldState
deriving DecidableEq, Repr, Inhabited

/-- The state after the result of an attempt has been tested. A failed attempt leaves
things as they were, and so the state before it is kept. -/
def Attempt.outcome (attempt : Attempt) (truth : Bool) : HeldState :=
  if attempt.success = truth then .held attempt.mode else attempt.prior

/-- What is known at a program point. All maps are `FinMap`s, so two environments that
say the same are equal. -/
structure Env where
  held : FinMap Ref Fact
  asserted : FinMap Ref Unit
  attempts : FinMap String (List Attempt)
  /-- What locals point to. -/
  bindings : FinMap String Ref
  /-- The locals whose truth is known. -/
  constants : FinMap String Bool
  /-- How many regions without checks are open, with no limit. A count of 32 bits agrees
  with it below `2 ^ 32`. -/
  suppression : Nat
  /-- Whether paths with different numbers of open regions have met. The count itself
  does not show it any more. -/
  conflict : Bool
deriving DecidableEq, Inhabited

namespace Env

def empty : Env :=
  { held := ∅, asserted := ∅, attempts := ∅, bindings := ∅, constants := ∅
    suppression := 0, conflict := false }

/-! ## Questions -/

def state (env : Env) (ref : Ref) : HeldState := ((env.held.get? ref).map Fact.state).getD .notHeld

def type? (env : Env) (ref : Ref) : Option CapId := (env.held.get? ref).bind Fact.type?

def isAsserted (env : Env) (ref : Ref) : Bool := env.asserted.contains ref

def attemptsOf (env : Env) (name : String) : List Attempt := (env.attempts.get? name).getD []

/-! ## Single changes -/

/-- The environment with the state of a capability set. Its type stays known where the
instance does not tell it. -/
def set (env : Env) (inst : Instance) (state : HeldState) : Env :=
  if state = .notHeld then { env with held := env.held.erase inst.ref }
  else { env with held := env.held.insert inst.ref ⟨state, inst.type?.or (env.type? inst.ref)⟩ }

def bind (env : Env) (name : String) (target : Ref) : Env :=
  { env with bindings := env.bindings.insert name target }

def setConstant (env : Env) (name : String) (value : Bool) : Env :=
  { env with constants := env.constants.insert name value }

/-- A map in which `target` has the value of `source`, if that has one. If it has none,
that of `target` stays; an assignment has erased it by then. -/
def copyEntry {ν : Type} (map : FinMap String ν) (target source : String) : FinMap String ν :=
  match map.get? source with
  | some value => map.insert target value
  | none => map

/-- The environment in which all that is known of `source` is known of `target`. An
attempt is then waiting on both, and is decided by whichever is tested first. -/
def copyLocal (env : Env) (target source : String) : Env :=
  { env with
    bindings := copyEntry env.bindings target source
    constants := copyEntry env.constants target source
    attempts := copyEntry env.attempts target source }

/-- The attempts that `keep` keeps; a local left with none has no entry, as canonical
environments need it. -/
def keepAttempts (attempts : FinMap String (List Attempt)) (keep : Attempt → Bool) :
    FinMap String (List Attempt) :=
  (attempts.mapValues fun _ list => list.filter keep).filter fun _ list => !list.isEmpty

def forgetAttempts (env : Env) (ref : Ref) : Env :=
  { env with attempts := keepAttempts env.attempts (·.inst.ref != ref) }

def unassert (env : Env) (ref : Ref) : Env := { env with asserted := env.asserted.erase ref }

/-- The environment in which nothing is certain of the capabilities that `affected`
picks. Only capabilities on record can be picked: what is plainly not held cannot be
lost. -/
def weaken (env : Env) (affected : Instance → Bool) : Env :=
  { env with
    held := env.held.mapValues fun ref fact =>
      if affected ⟨ref, fact.type?⟩ then { fact with state := .unknown } else fact }

/-- The environment after an assignment to a local: whatever was reached through its old
value is lost, and holds reached that way become uncertain. Their paths now lead to
other objects; the holds are still there, but nothing names them any more. -/
def rebind (env : Env) (name : String) : Env :=
  { env.weaken (·.ref.isRootedAt name) with
    asserted := env.asserted.filter fun ref _ => !ref.isRootedAt name
    attempts := keepAttempts (env.attempts.erase name) (!·.inst.ref.isRootedAt name)
    bindings := (env.bindings.erase name).filter fun _ target => !target.isRootedAt name
    constants := env.constants.erase name }

/-! ## Regions without checks -/

def enterRegion (env : Env) : Env := { env with suppression := env.suppression + 1 }

def leaveRegion? (env : Env) : Option Env :=
  match env.suppression with
  | 0 => none
  | depth + 1 => some { env with suppression := depth }

/-- The environment with a given number of open regions. Exempt blocks put the count
back to what it was before them. -/
def restoreRegions (env : Env) (depth : Nat) : Env := { env with suppression := depth }

/-! ## Merging paths and testing locals -/

/-- What two paths agree on about a capability. Where only one of them knows a type,
that is kept: types are not facts about paths, and the first of two different ones
wins. -/
def joinFacts (a b : Option Fact) : Option Fact :=
  let state := ((a.map Fact.state).getD .notHeld).join ((b.map Fact.state).getD .notHeld)
  if state = .notHeld then none
  else some ⟨state, (a.bind Fact.type?).or (b.bind Fact.type?)⟩

/-- What holds where two paths meet. The smaller number of open regions wins, so that
checks resume after the merge and a loop that opens a region every time around comes to
an end. -/
def join (a b : Env) : Env :=
  { held := FinMap.merge joinFacts a.held b.held
    asserted := a.asserted.agreeing b.asserted
    attempts := a.attempts.agreeing b.attempts
    bindings := a.bindings.agreeing b.bindings
    constants := a.constants.agreeing b.constants
    suppression := min a.suppression b.suppression
    conflict := a.conflict || b.conflict || a.suppression != b.suppression }

/-- What holds where a local has been found true or false: the attempts whose result it
holds are decided. -/
def refine (env : Env) (name : String) (truth : Bool) : Env :=
  let undecided := { env with attempts := env.attempts.erase name }
  let decided := (env.attemptsOf name).foldl (fun env attempt =>
    env.set attempt.inst (attempt.outcome truth)) undecided
  decided.setConstant name truth

end Env

end Custody
