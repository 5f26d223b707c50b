import Custody.Analysis.Assign
import Custody.Analysis.Call
import Custody.Analysis.Exit

/-!
# Statements and blocks

What running a statement does to an environment, and what is found on the way. Where
checks are off, in an exempt block or between markers, only the markers do anything.

Without checks a statement also has no effects: calls there do not change what is held,
and assignments do not change what is known. Code without checks is code the analysis is
told not to look at, and to follow half of it would be worse than to follow none. Exempt
blocks put the number of open regions back where they end, because they nest and regions
do not.

Findings about markers have no place: what is wrong is that two places do not match, and
neither of them alone is to blame.

Running is written as functions that give the environment after and the findings, in
this order, and not as a monad. The environment never depends on what was found, and it
shows: the first component of everything here can be read on its own.
-/

set_option autoImplicit false

namespace Custody

/-- Where in a body a finding is. The statement behind the last one is the end of the
block, where returns are checked. -/
structure Site where
  block : Nat
  stmt : Nat
  line : Option Nat
deriving DecidableEq, Repr, Inhabited

/-- Something found in a body. Findings about markers concern the function as a
whole. -/
structure Finding where
  site? : Option Site
  cause : Cause
  /-- The clause that is not met, if there is one. -/
  clause : String
deriving DecidableEq, Repr

def Violation.at (violation : Violation) (site : Site) : Finding :=
  ⟨some site, violation.cause, violation.clause⟩

/-- A finding about a function as a whole. -/
def Finding.overall (cause : Cause) : Finding := ⟨none, cause, ""⟩

/-- The marker an action is, as a statement of its own or as a call. A call that is a
marker has no other effect, whatever is declared under its name. -/
def Action.marker? : Action → Option Marker
  | suppressBegin => some .disable
  | suppressEnd => some .enable
  | call callee _ _ => Marker.ofName? callee
  | _ => none

namespace Context

def runMarker (env : Env) : Marker → Env × List Finding
  | .disable => (env.enterRegion, [])
  | .enable =>
    match env.leaveRegion? with
    | some env => (env, [])
    | none => (env, [.overall .unmatchedEnable])

def runChecked (ctx : Context) (env : Env) : Action → Env × List Violation
  | .call callee args dest => ctx.call env callee args dest
  | .read path => (env, ctx.checkPath env .read path)
  | .write path => (env, ctx.checkPath env .write path)
  | .assign dest value => ctx.assign env dest value
  | .plain _ | .suppressBegin | .suppressEnd => (env, [])

def runAction (ctx : Context) (exempt : Nat) (site : Site) (env : Env) (action : Action) :
    Env × List Finding :=
  match action.marker? with
  | some marker => runMarker env marker
  | none =>
    if checksEnabled exempt env.suppression then
      let (after, violations) := ctx.runChecked env action
      (after, violations.map (·.at site))
    else (env, [])

mutual

/-- Running a statement inside `exempt` exempt blocks. Statements in an exempt block
have its site, but their own line where they have one. -/
def runStmt (ctx : Context) (exempt : Nat) (site : Site) (env : Env) : Stmt → Env × List Finding
  | .simple line action =>
    ctx.runAction exempt { site with line := line.or site.line } env action
  | .exempt line body =>
    let (after, findings) :=
      runStmts ctx (exempt + 1) { site with line := line.or site.line } env body
    if after.suppression = env.suppression then (after, findings)
    else (after.restoreRegions env.suppression, findings ++ [.overall .exemptUnbalanced])

/-- Running statements in order, all at one site. -/
def runStmts (ctx : Context) (exempt : Nat) (site : Site) (env : Env) :
    List Stmt → Env × List Finding
  | [] => (env, [])
  | stmt :: rest =>
    let (mid, first) := runStmt ctx exempt site env stmt
    let (after, others) := runStmts ctx exempt site mid rest
    (after, first ++ others)

end

/-- Running the statements of a block from one on, whose number is `index`. Only these
have sites of their own; those inside an exempt block have the site of the block. -/
def runFrom (ctx : Context) (block : Nat) : Nat → Env → List Stmt → Env × List Finding
  | _, env, [] => (env, [])
  | index, env, stmt :: rest =>
    let (mid, first) := ctx.runStmt 0 ⟨block, index, none⟩ env stmt
    let (after, others) := runFrom ctx block (index + 1) mid rest
    (after, first ++ others)

/-- Where a branch goes, and with what: to one side if the variable is known, else to
both, with the variable known on each. -/
def branch (env : Env) (cond : Condition) (yes no : Nat) : List (Nat × Env) :=
  match cond with
  | .unknown => [(yes, env), (no, env)]
  | .holds name => onTruth name true
  | .fails name => onTruth name false
where
  onTruth (name : String) (wanted : Bool) : List (Nat × Env) :=
    match env.constants.get? name with
    | some value => [(if value = wanted then yes else no, env)]
    | none => [(yes, env.refine name wanted), (no, env.refine name !wanted)]

def flowsFrom (env : Env) : Terminator → List (Nat × Env)
  | .goto target => [(target, env)]
  | .branch cond yes no => branch env cond yes no
  | .leave _ | .unreachable => []

/-- What is found where a block returns. A function that returns with a region open is
told so and nothing else, since its contract was not checked where the region was
open. -/
def checkLeaving (ctx : Context) (site : Site) (env : Env) : Terminator → List Finding
  | .leave returned =>
    if env.suppression > 0 then [.overall .returnsDisabled]
    else (ctx.own.checkReturn env returned).map (·.at site)
  | _ => []

/-- Running a block from its entry environment: what flows on, and what is found. That
paths with different numbers of open regions have met is found before the first
statement. -/
def runBlock (ctx : Context) (index : Nat) (block : Block) (env : Env) :
    List (Nat × Env) × List Finding :=
  let merged := if env.conflict then [Finding.overall .mergedDepths] else []
  let (after, findings) := ctx.runFrom index 0 env block.stmts
  (flowsFrom after block.term,
    merged ++ findings ++ ctx.checkLeaving ⟨index, block.stmts.length, none⟩ after block.term)

end Context

end Custody
