import Custody.Analysis.Block
import Custody.Flow.Fixpoint
import Custody.Flow.Order

/-!
# Analysis of a function

The blocks of a body are run to a fixed point of their entry environments; only then
each block that is reached is run once more from its entry environment, and only what is
found then is reported.

Running a block gives what flows on and what is found in one go, and the iteration
throws away what was found. On the way to the fixed point a block is run from
environments that claim too much, since not all paths into it have been seen, and what
is found there may be neither complete nor right. With one function for both uses there
is nothing that could differ between them.

The limit on changes is a parameter of `analyzeWithin`, so that what the limit does can
be stated for every limit (`Proofs/Analysis/Fixpoint`, `Proofs/Analysis/Limit`); the
program uses `changeLimit`.
-/

set_option autoImplicit false

namespace Custody

namespace Body

def successors (body : Body) (index : Nat) : List Nat :=
  (body.blocks[index]?.map (·.term.successors)).getD []

/-- The blocks that can be reached from the entry, in the order they are visited. Other
blocks have no entry environment, and nothing is ever reported of them. -/
def order (body : Body) : List Nat :=
  Flow.reversePostorder body.successors body.blocks.length body.entry

/-- The first jump to a block that does not exist, as its source and target. All blocks
are looked at, also those that cannot be reached. -/
def badJump? (body : Body) : Option (Nat × Nat) :=
  body.blocks.zipIdx.findSome? fun (block, index) =>
    (block.term.successors.find? (body.blocks.length ≤ ·)).map (index, ·)

end Body

structure Outcome where
  findings : List Finding
  /-- How many blocks were run before the fixed point was reached. -/
  visits : Nat
  /-- How many blocks can be reached from the entry. -/
  reachable : Nat
deriving DecidableEq, Repr

namespace Context

/-- What holds on entry: the function's own requirements and what it releases. What it
releases is held on entry because a caller cannot give up what it does not have. What is
excluded is not held, and so is not mentioned. -/
def entryEnv (ctx : Context) : Env :=
  (ctx.own.requires ++ ctx.own.releases).foldl
    (fun env clause => env.set clause.inst (.held clause.mode)) .empty

/-- What a block sends on and what is found in it; nothing if it does not exist. -/
def runIndex (ctx : Context) (body : Body) (index : Nat) (env : Env) :
    List (Nat × Env) × List Finding :=
  match body.blocks[index]? with
  | some block => ctx.runBlock index block env
  | none => ([], [])

def system (ctx : Context) (body : Body) : Flow.System Env :=
  { run := fun index env => (ctx.runIndex body index env).1, join := Env.join }

/-- The entry environments of the blocks, and how many visits it took to find them, with
a limit on the changes of each. -/
def entries (ctx : Context) (body : Body) (limit : Nat) : Except Nat (FinMap Nat Env × Nat) :=
  Flow.solve (ctx.system body) body.order limit body.entry ctx.entryEnv

/-- What is found in the blocks, run from their entry environments. This is the one run
of each block that is reported. -/
def record (ctx : Context) (body : Body) (entries : FinMap Nat Env) : List Finding :=
  body.order.flatMap fun index =>
    match entries.get? index with
    | some env => (ctx.runIndex body index env).2
    | none => []

/-- A block whose entry environment changes more often than this is given up on. No
limit would be enough for all bodies: for each there is a body that needs more. -/
def changeLimit : Nat := 512

/-- The analysis of a body, with a limit on the changes of each entry environment. A
body that is malformed is refused before anything is run. -/
def analyzeWithin (ctx : Context) (body : Body) (limit : Nat) : Except Malformed Outcome :=
  if body.blocks.length ≤ body.entry then
    .error (.missingEntry ctx.unit ctx.decl.name body.entry)
  else match body.badJump? with
    | some (source, target) => .error (.missingTarget ctx.unit ctx.decl.name source target)
    | none =>
      match ctx.entries body limit with
      | .error block => .error (.diverged ctx.unit ctx.decl.name block)
      | .ok (entries, visits) => .ok ⟨ctx.record body entries, visits, body.order.length⟩

def analyze (ctx : Context) (body : Body) : Except Malformed Outcome :=
  ctx.analyzeWithin body changeLimit

end Context

end Custody
