import Custody.Check.Basic

/-!
# Workers that share the units

The units of a program can be analyzed by several workers at a time. They share a
counter and nothing else: a worker takes the next number of the counter, analyzes the
unit at that place, keeps the result with its place, and goes on until there is no such
unit. When all have stopped, their results are put in the order of places.

A schedule says whose turn it is, and nothing is assumed of it. Taking a number is one
turn, however long the analysis then lasts, and finishing the analysis is another. These
are the only two moments at which a worker touches what it shares or what it leaves, so
every interleaving of workers is some schedule, and a statement about all schedules is
one about all runs (`Proofs/Check/Pool`).

The counter keeps counting when there is nothing left, since each worker finds out for
itself. A worker that breaks down takes its results with it; what it leaves is sorted
after everything else, so that an error of a unit is reported before a breakdown.

Pools are generic in items and results. What workers do to items plays no part in how
they share them, and nothing about analysis is needed in the proofs.
-/

set_option autoImplicit false

namespace Custody

/-- What a worker is at. -/
inductive Phase (α : Type) where
  | idle
  /-- Works on an item. -/
  | busy (place : Nat) (item : α)
  /-- Has found no more items. -/
  | stopped
  /-- Has broken down, and all its results are lost. -/
  | panicked
deriving DecidableEq, Repr, Inhabited

/-- A worker, and the results it has so far, each with the place of its item. -/
structure Worker (α ρ : Type) where
  phase : Phase α := .idle
  done : List (Nat × ρ) := []
deriving DecidableEq, Repr, Inhabited

/-- Workers, and the counter they share. There is no list of items left to do: the
counter is all that workers have in common. -/
structure Pool (α ρ : Type) where
  /-- The next place to be taken. -/
  next : Nat
  workers : List (Worker α ρ)
deriving DecidableEq, Repr, Inhabited

/-- One turn of a schedule: whose it is, and whether a worker that is busy breaks down
in it. -/
structure Turn where
  worker : Nat
  panics : Bool := false
deriving DecidableEq, Repr, Inhabited

/-- Why a pool has no outcomes. -/
inductive PoolError (ε : Type) where
  /-- The error of an item. -/
  | failed (error : ε)
  | panicked
deriving DecidableEq, Repr, Inhabited

namespace Pool

variable {α ρ ε β : Type}

def start (size : Nat) : Pool α ρ := ⟨0, List.replicate size {}⟩

/-- The counter and a worker after a turn of the worker. Only taking a place touches the
counter, and it does so also when no item is there. -/
def advance (items : List α) (work : α → ρ) (panics : Bool) (next : Nat) (worker : Worker α ρ) :
    Nat × Worker α ρ :=
  match worker.phase with
  | .idle =>
    match items[next]? with
    | some item => (next + 1, { worker with phase := .busy next item })
    | none => (next + 1, { worker with phase := .stopped })
  | .busy place item =>
    if panics then (next, ⟨.panicked, []⟩)
    else (next, ⟨.idle, worker.done ++ [(place, work item)]⟩)
  | .stopped | .panicked => (next, worker)

def turn (items : List α) (work : α → ρ) (pool : Pool α ρ) (turn : Turn) : Pool α ρ :=
  match pool.workers[turn.worker]? with
  | none => pool
  | some worker =>
    let (next, worker) := advance items work turn.panics pool.next worker
    ⟨next, pool.workers.set turn.worker worker⟩

def run (items : List α) (work : α → ρ) (pool : Pool α ρ) (schedule : List Turn) : Pool α ρ :=
  schedule.foldl (turn items work) pool

/-- Whether a worker has no more turns to take. -/
def hasEnded (worker : Worker α ρ) : Bool :=
  match worker.phase with
  | .stopped | .panicked => true
  | .idle | .busy .. => false

def isFinished (pool : Pool α ρ) : Bool := pool.workers.all hasEnded

/-- The place of what a worker that broke down leaves: after all others, as the last
number that 64 bits have. -/
def lastPlace : Nat := UInt64.size - 1

/-- What a worker that has ended leaves. Of one that broke down it is only that it did,
without the results it had by then. -/
def left (worker : Worker α (Except ε β)) : List (Nat × Except (PoolError ε) β) :=
  match worker.phase with
  | .panicked => [(lastPlace, .error .panicked)]
  | _ => worker.done.map fun (place, result) => (place, result.mapError .failed)

/-- The outcomes of all items in the order of places, or the first error in that
order. -/
def collect (pool : Pool α (Except ε β)) : Except (PoolError ε) (List β) :=
  (((pool.workers.flatMap left).mergeSort fun a b => a.1 ≤ b.1).map (·.2)).mapM id

end Pool

/-- How many workers there are for some units: as many as the settings say, or as the
machine has to offer, but one at least and not more than units. -/
def Settings.workerCount (settings : Settings) (available units : Nat) : Nat :=
  max 1 (min (if settings.jobs = 0 then available else settings.jobs) (max units 1))

/-- The analysis of units by some workers, who take turns as a schedule says. A single
worker takes the units in order, and stops at the first error. -/
def Table.runUnits (table : Table) (severity : Severity) (size : Nat) (schedule : List Turn)
    (units : List SourceUnit) : Except (PoolError Malformed) (List UnitOutcome) :=
  if size = 1 then (units.mapM (table.analyzeUnit severity)).mapError .failed
  else ((Pool.start size).run units (table.analyzeUnit severity) schedule).collect

/-- The analysis of units as the settings say, on a machine with room for some
workers. -/
def Settings.runUnits (settings : Settings) (available : Nat) (schedule : List Turn) (table : Table)
    (units : List SourceUnit) : Except (PoolError Malformed) (List UnitOutcome) :=
  table.runUnits (.ofPolicy settings.treatAsFatal)
    (settings.workerCount available units.length) schedule units

end Custody
