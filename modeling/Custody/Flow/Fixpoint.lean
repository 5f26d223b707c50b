import Custody.FinMap

/-!
# Fixed points on graphs

What is known on entry to each block, as the solution that an iteration finds: a block
is run from its entry state, what it sends to its successors is joined to theirs, and
those that changed are run again. Of the blocks that wait, the first in a given order is
run next.

`solve` is generic in the states. A bound on the changes of one entry state makes it
total; `error` names the block that exceeded it.

## What kind of solution it is

Nothing here asks that blocks are monotone, and those of the analysis are not: a release
through an alias weakens other holds only while its own target is not tracked. So there
need not be a least solution, and what is found can depend on the order of the visits.
What can be said is in `Proofs/Flow`: the result absorbs all that flows in it, it is
reached by states that only rise, and it is the join of everything that was ever sent.

## Why positions wait, and not blocks

Pending blocks are kept as positions in the order, in a `FinMap`. The first entry is
then the next block, whatever was added last, and adding a block that waits already
changes nothing. A list of blocks would need a search for the first and a test for
repetitions, and its order would be one more thing to have invariants about.
-/

set_option autoImplicit false

namespace Custody.Flow

/-- How states flow: `run` gives what a block sends to each successor from its entry
state. -/
structure System (σ : Type) where
  run : Nat → σ → List (Nat × σ)
  join : σ → σ → σ

/-- The iteration under way. Changes are counted apart from the states, because the
limit is on them and a state does not show how often it changed. -/
structure Progress (σ : Type) where
  /-- The entry states so far. -/
  entries : FinMap Nat σ
  /-- The positions of the blocks that wait, in increasing order. -/
  pending : FinMap Nat Unit
  /-- How often each entry state has changed. -/
  changes : FinMap Nat Nat
  /-- How many blocks have been run. -/
  visits : Nat
deriving Inhabited

namespace Progress

variable {σ : Type}

def start (order : List Nat) (entry : Nat) (state : σ) : Progress σ :=
  { entries := (∅ : FinMap Nat σ).insert entry state
    pending := (∅ : FinMap Nat Unit).insert (order.idxOf entry) ()
    changes := ∅
    visits := 0 }

/-- A new entry state of a block, which then waits. Also the first state counts as a
change. -/
def update (progress : Progress σ) (order : List Nat) (limit : Nat) (block : Nat) (state : σ) :
    Except Nat (Progress σ) :=
  let count := (progress.changes.get? block).getD 0 + 1
  if limit < count then .error block
  else .ok { progress with
    entries := progress.entries.insert block state
    pending := progress.pending.insert (order.idxOf block) ()
    changes := progress.changes.insert block count }

/-- A state that flows into a block. If it says nothing new the block does not wait for
it. -/
def absorb [DecidableEq σ] (progress : Progress σ) (join : σ → σ → σ) (order : List Nat)
    (limit : Nat) (block : Nat) (state : σ) : Except Nat (Progress σ) :=
  match progress.entries.get? block with
  | none => progress.update order limit block state
  | some old =>
    let joined := join old state
    if joined = old then .ok progress else progress.update order limit block joined

/-- The iteration after a block has been run. What it sends on is received in the order
of the successors, and each is joined to what the one before it left: a block may send
to itself, or twice to the same. -/
def visit [DecidableEq σ] (progress : Progress σ) (system : System σ) (order : List Nat)
    (limit : Nat) (block : Nat) : Except Nat (Progress σ) :=
  match progress.entries.get? block with
  | none => .ok progress
  | some state =>
    (system.run block state).foldlM
      (fun progress (target, out) => progress.absorb system.join order limit target out)
      { progress with visits := progress.visits + 1 }

/-- The iteration until no block waits, of at most `steps` visits. Running out of steps
is an error of the block that would be next; `solve` gives enough of them that it never
happens before a count is exceeded. -/
def iterate [DecidableEq σ] (system : System σ) (order : List Nat) (limit : Nat) :
    Nat → Progress σ → Except Nat (Progress σ)
  | steps, progress =>
    match progress.pending.entries with
    | [] => .ok progress
    | (position, _) :: _ =>
      let block := order.getD position 0
      match steps with
      | 0 => .error block
      | steps + 1 => do
        let taken := { progress with pending := progress.pending.erase position }
        iterate system order limit steps (← taken.visit system order limit block)

end Progress

/-- The entry states of the blocks that states flow into, and how many visits it took to
find them. Every visit but the first follows a change, so the visits are bounded by the
changes. -/
def solve {σ : Type} [DecidableEq σ] (system : System σ) (order : List Nat) (limit : Nat)
    (entry : Nat) (state : σ) : Except Nat (FinMap Nat σ × Nat) :=
  (Progress.iterate system order limit (order.length * limit + 1) (.start order entry state)).map
    fun progress => (progress.entries, progress.visits)

end Custody.Flow
