import Custody.Analysis.Basic
import Custody.Check.Basic
import Custody.Proofs.Flow.Translation
import Custody.Proofs.Renumber.Table

/-!
# The analysis does not see the numbers of capability types

A function is analyzed alike with two tables that differ in numbers only. Each step of
the analysis takes a renumbered environment to the renumbered result, and finds the
same; since renumbered environments are equal only if the environments are, the
iteration to a fixed point takes the same way.

The file goes through the functions of the analysis in the order in which they call each
other, with one equation for each, and each is proved by unfolding the function once and
rewriting with the equations before. Findings are compared for equality throughout. They
are texts and places, and a text that came to show a number would break the proof of the
function that makes it.

`Context.Renumbered` holds the one assumption. That a function has the same variables
and declaration on both sides is part of it, since both contexts are made for one
declaration (`renumbered_ofDecl`); what differs is the table, and the contract of the
function itself, which was read from it.

The last step is `Renumbered.translated`: to run a block and to join environments
commutes with renumbering, which is injective. `Proofs/Flow/Translation` then has the
rest, with the number of visits and the failure to settle.
-/

set_option autoImplicit false

namespace Custody

variable {ρ : CapId ↪ CapId}

namespace Context

variable (ρ) in
/-- The context `b` is `a` with other numbers. Unit, declaration and variables are the
same, as they come from the declaration and not from the table. -/
structure Renumbered (a b : Context) : Prop where
  table : a.table.Renumbered ρ b.table
  unit : b.unit = a.unit
  decl : b.decl = a.decl
  vars : b.vars = a.vars
  own : b.own = a.own.renumber ρ

theorem renumbered_ofDecl {a b : Table} (h : a.Renumbered ρ b) (unit : String)
    (decl : FunctionDecl) :
    (ofDecl a unit decl).Renumbered ρ (ofDecl b unit decl) where
  table := h
  unit := rfl
  decl := rfl
  vars := rfl
  own := by simp [ofDecl, h.contractFor, Contract.bind_renumber]

namespace Renumbered

variable {a b : Context} (h : a.Renumbered ρ b)

include h

/-!
## Names

Operands are found by name, and are the same. An instance is an operand with a type, and
is the first thing that has a number.
-/

theorem root (env : Env) : b.root (env.renumber ρ) = a.root env := by
  funext name
  simp only [Context.root, h.vars, h.table.decls.globalRoot]
  rfl

theorem rootType : b.rootType = a.rootType := by
  funext ref
  cases ref <;> simp [Context.rootType, h.vars]

theorem typeOf (ref : Ref) : b.typeOf ref = a.typeOf ref := by
  rw [Context.typeOf, h.table.decls.typeOf, h.rootType, Context.typeOf]

theorem operand? (env : Env) (text : String) :
    b.operand? (env.renumber ρ) text = a.operand? env text := by
  simp only [Context.operand?, h.root]

theorem instance? (env : Env) (text : String) :
    b.instance? (env.renumber ρ) text = (a.instance? env text).map
      (Instance.renumber ρ) := by
  simp only [Context.instance?, h.operand?, h.table.decls.typeOfOperand, h.rootType,
    h.table.decls.capabilityOf]
  cases a.operand? env text with
  | none => rfl
  | some operand =>
    simp only [Option.bind_eq_bind, Option.bind_some]
    cases (a.table.decls.typeOfOperand a.rootType operand).toOption <;> rfl

/-!
## Accesses

What is found at an access is a text about the guard and what is held, the same on both
sides.
-/

theorem member? (ref : Ref) : b.member? ref = a.member? ref := by
  cases ref <;> simp [Context.member?, h.typeOf]

omit h in
theorem checkGuard_renumber (env : Env) (access : Access) (accessed : Ref)
    (guard : Guard) (holder : Option Ref) :
    checkGuard (env.renumber ρ) access accessed (guard.renumber ρ) holder =
      checkGuard env access accessed guard holder := by
  have href : guardRef (guard.renumber ρ) holder = guardRef guard holder := by
    cases holder <;> rfl
  simp only [checkGuard, href, Env.state_renumber]
  rfl

theorem checkMember (env : Env) (access : Access) (accessed member : Ref) (pointee : Bool) :
    b.checkMember (env.renumber ρ) access accessed member pointee =
      a.checkMember env access accessed member pointee := by
  simp only [Context.checkMember, h.member?]
  cases a.member? member with
  | none => rfl
  | some found =>
    simp only [h.table.guard?]
    cases a.table.guard? found.1 pointee with
    | none => rfl
    | some guard => exact checkGuard_renumber env access accessed guard found.2

theorem checkPlace (env : Env) (access : Access) (ref : Ref) :
    b.checkPlace (env.renumber ρ) access ref = a.checkPlace env access ref := by
  induction ref generalizing access with
  | field base name ih => simp only [Context.checkPlace, h.checkMember, ih]
  | deref pointer ih => simp only [Context.checkPlace, h.checkMember, ih]
  | global name => simp only [Context.checkPlace, h.checkMember]
  | var | self | param => rfl

theorem checkExpr (env : Env) (access : Access) (expr : Expr) :
    b.checkExpr (env.renumber ρ) access expr = a.checkExpr env access expr := by
  simp only [Context.checkExpr, h.root, h.checkPlace]

theorem checkPath (env : Env) (access : Access) (path : String) :
    b.checkPath (env.renumber ρ) access path = a.checkPath env access path := by
  simp only [Context.checkPath, h.checkExpr]

/-! ## Assignments -/

theorem readsMember (expr : Expr) : b.readsMember expr = a.readsMember expr := by
  cases expr <;> simp [Context.readsMember, h.vars]

theorem track (env : Env) (dest : String) (expr : Expr) :
    b.track (env.renumber ρ) dest expr = a.track env dest expr := by
  have htarget : b.target? (env.renumber ρ) expr = a.target? env expr := by
    simp only [Context.target?, h.root, h.typeOf]
  simp only [Context.track, htarget, h.vars]

omit h in
theorem learn_renumber (env : Env) (dest : String) (tracked : Tracked) :
    learn (env.renumber ρ) dest tracked = (learn env dest tracked).renumber ρ := by
  cases tracked with
  | copy source => exact Env.copyLocal_renumber ρ env dest source
  | nothing | constant | binding => rfl

theorem assign (env : Env) (dest value : String) :
    b.assign (env.renumber ρ) dest value =
      ((a.assign env dest value).1.renumber ρ, (a.assign env dest value).2) := by
  have htrack : b.track (env.renumber ρ) dest = a.track env dest :=
    funext (h.track env dest)
  simp only [Context.assign, h.readsMember, h.checkExpr, h.vars, htrack, h.checkPath,
    Env.rebind_renumber, learn_renumber]
  split <;> rfl

/-! ## Calls -/

theorem boundContract (env : Env) (callee : String) (args : List String) :
    b.boundContract (env.renumber ρ) callee args =
      (a.boundContract env callee args).renumber ρ := by
  have hoperand : b.operand? (env.renumber ρ) = a.operand? env := funext (h.operand? env)
  simp only [Context.boundContract, h.table.contractFor, h.unit, hoperand,
    Contract.bind_renumber]

omit h in
theorem intrinsicContract_renumber (callee : String) (args : List String)
    (inst : Option Instance) (intrinsic : Intrinsic) :
    intrinsicContract callee args (inst.map (Instance.renumber ρ)) intrinsic =
      (intrinsicContract callee args inst intrinsic).renumber ρ := by
  cases inst <;> cases intrinsic <;> rfl

omit h in
theorem intrinsicResult_renumber (env : Env) (args : List String) (dest : Option String)
    (inst : Option Instance) (intrinsic : Intrinsic) :
    intrinsicResult (env.renumber ρ) args dest (inst.map (Instance.renumber ρ)) intrinsic =
      intrinsicResult env args dest inst intrinsic := by
  cases inst <;> cases intrinsic <;> rfl

omit h in
theorem finishCall_renumber (env : Env) (contract : BoundContract) (result : CallResult)
    (dest : Option String) :
    finishCall (env.renumber ρ) (contract.renumber ρ) result dest =
      (finishCall env contract result dest).renumber ρ := by
  cases dest with
  | none => exact Env.apply_renumber ρ env contract result
  | some name =>
    simp only [finishCall, Env.rebind_renumber, Env.apply_renumber]
    cases hreturns : contract.returns with
    | none => simp [BoundContract.renumber, hreturns]
    | some clause =>
      simp only [BoundContract.renumber, hreturns, Option.map_some]
      rfl

theorem call (env : Env) (callee : String) (args : List String) (dest : Option String) :
    b.call (env.renumber ρ) callee args dest =
      ((a.call env callee args dest).1.renumber ρ, (a.call env callee args dest).2) := by
  have hinst : args.head?.bind (b.instance? (env.renumber ρ)) =
      (args.head?.bind (a.instance? env)).map (Instance.renumber ρ) := by
    cases args.head? with
    | none => rfl
    | some arg => exact h.instance? env arg
  simp only [Context.call, hinst, h.boundContract, intrinsicContract_renumber,
    intrinsicResult_renumber, finishCall_renumber, Env.violations_renumber]
  split <;> rfl

/-!
## Blocks

Statements are nested, so their two lemmas are proved together, as the functions are
defined.
-/

theorem runChecked (env : Env) (action : Action) :
    b.runChecked (env.renumber ρ) action =
      ((a.runChecked env action).1.renumber ρ, (a.runChecked env action).2) := by
  cases action with
  | call callee args dest => exact h.call env callee args dest
  | read path => simp only [Context.runChecked, h.checkPath]
  | write path => simp only [Context.runChecked, h.checkPath]
  | assign dest value => exact h.assign env dest value
  | plain | suppressBegin | suppressEnd => rfl

omit h in
theorem runMarker_renumber (env : Env) (marker : Marker) :
    runMarker (env.renumber ρ) marker =
      ((runMarker env marker).1.renumber ρ, (runMarker env marker).2) := by
  cases marker with
  | disable => rfl
  | enable =>
    simp only [runMarker, Env.leaveRegion?_renumber]
    cases env.leaveRegion? <;> rfl

theorem runAction (exempt : Nat) (site : Site) (env : Env) (action : Action) :
    b.runAction exempt site (env.renumber ρ) action =
      ((a.runAction exempt site env action).1.renumber ρ,
        (a.runAction exempt site env action).2) := by
  simp only [Context.runAction, h.runChecked]
  cases action.marker? with
  | some marker => exact runMarker_renumber env marker
  | none =>
    show (if checksEnabled exempt env.suppression = true then _ else _) = _
    split <;> rfl

end Renumbered

mutual

theorem Renumbered.runStmt {a b : Context} (h : a.Renumbered ρ b) (exempt : Nat)
    (site : Site) (env : Env) :
    ∀ stmt, b.runStmt exempt site (env.renumber ρ) stmt =
      ((a.runStmt exempt site env stmt).1.renumber ρ, (a.runStmt exempt site env stmt).2)
  | .simple line action => by
    simp only [Context.runStmt, h.runAction]
  | .exempt line body => by
    simp only [Context.runStmt, h.runStmts]
    show (if (Context.runStmts a _ _ env body).1.suppression = env.suppression
      then _ else _) = _
    split <;> rfl

theorem Renumbered.runStmts {a b : Context} (h : a.Renumbered ρ b) (exempt : Nat)
    (site : Site) (env : Env) :
    ∀ stmts, b.runStmts exempt site (env.renumber ρ) stmts =
      ((a.runStmts exempt site env stmts).1.renumber ρ,
        (a.runStmts exempt site env stmts).2)
  | [] => by simp only [Context.runStmts]
  | stmt :: rest => by
    simp only [Context.runStmts, h.runStmt exempt site env stmt]
    rw [h.runStmts exempt site _ rest]

end

namespace Renumbered

variable {a b : Context} (h : a.Renumbered ρ b)

include h

theorem runFrom (block index : Nat) (env : Env) (stmts : List Stmt) :
    b.runFrom block index (env.renumber ρ) stmts =
      ((a.runFrom block index env stmts).1.renumber ρ,
        (a.runFrom block index env stmts).2) := by
  induction stmts generalizing index env with
  | nil => rfl
  | cons stmt rest ih => simp only [Context.runFrom, h.runStmt, ih]

omit h in
theorem flowsFrom_renumber (env : Env) (term : Terminator) :
    flowsFrom (env.renumber ρ) term = (flowsFrom env term).map
      (Prod.map id (Env.renumber ρ)) := by
  have htruth : ∀ name wanted yes no, branch.onTruth (env.renumber ρ) yes no name wanted =
      (branch.onTruth env yes no name wanted).map (Prod.map id (Env.renumber ρ)) := by
    intro name wanted yes no
    have hconstants : (env.renumber ρ).constants = env.constants := rfl
    simp only [branch.onTruth, hconstants, Env.refine_renumber]
    split <;> rfl
  cases term with
  | branch cond yes no =>
    cases cond with
    | unknown => rfl
    | holds name => exact htruth name true yes no
    | fails name => exact htruth name false yes no
  | goto | leave | unreachable => rfl

/-! ## Returns -/

omit h in
theorem checkKept_renumber (own : BoundContract) (env : Env) (clause : BoundClause) :
    (own.renumber ρ).checkKept (env.renumber ρ) (clause.renumber ρ) =
      own.checkKept env clause := by
  have hreleased : (own.renumber ρ).releases.any (·.inst = (clause.renumber ρ).inst) =
      own.releases.any (·.inst = clause.inst) := by
    rw [Bool.eq_iff_iff]
    simp [BoundContract.renumber, BoundClause.renumber,
      (Instance.renumber_injective ρ).eq_iff]
  simp only [BoundContract.checkKept, hreleased]
  rw [show (clause.renumber ρ).inst.ref = clause.inst.ref from rfl, Env.state_renumber]
  rfl

omit h in
theorem leaks_renumber (own : BoundContract) (env : Env) :
    (own.renumber ρ).leaks (env.renumber ρ) = own.leaks env := by
  have hdeclared : (own.renumber ρ).declared = own.declared := by
    simp [BoundContract.declared, BoundContract.renumber, Function.comp_def,
      BoundClause.renumber, BoundAttempt.renumber]
  simp only [BoundContract.leaks, hdeclared, Env.renumber, FinMap.mapValues,
    List.filter_map, List.map_map]
  rfl

omit h in
theorem checkReturn_renumber (own : BoundContract) (env : Env) (returned : Option String) :
    (own.renumber ρ).checkReturn (env.renumber ρ) returned =
      own.checkReturn env returned := by
  have hacquired : ∀ clause : BoundClause,
      (own.renumber ρ).checkAcquired (env.renumber ρ) (clause.renumber ρ) =
        own.checkAcquired env clause := by
    intro clause
    simp [BoundContract.checkAcquired, BoundClause.renumber, BoundContract.renumber]
  have hgone : ∀ clause : BoundClause,
      (own.renumber ρ).checkGone (env.renumber ρ) (clause.renumber ρ) =
        own.checkGone env clause := by
    intro clause
    simp [BoundContract.checkGone, BoundClause.renumber, BoundContract.renumber]
  have hattempt : ∀ (value : Bool) (attempt : BoundAttempt),
      (own.renumber ρ).checkAttempt (env.renumber ρ) value (attempt.renumber ρ) =
        own.checkAttempt env value attempt := by
    intro value attempt
    simp [BoundContract.checkAttempt, BoundAttempt.renumber, BoundClause.renumber,
      BoundContract.renumber]
  have hreturned :
      BoundContract.returnedTruth? (env.renumber ρ) =
        BoundContract.returnedTruth? env := rfl
  simp only [BoundContract.checkReturn, leaks_renumber, hreturned]
  simp only [show (own.renumber ρ).acquires = own.acquires.map (·.renumber ρ) from rfl,
    show (own.renumber ρ).requires = own.requires.map (·.renumber ρ) from rfl,
    show (own.renumber ρ).releases = own.releases.map (·.renumber ρ) from rfl,
    show (own.renumber ρ).tryAcquires = own.tryAcquires.map (·.renumber ρ) from rfl,
    List.filterMap_map, Function.comp_def, hacquired, hgone, hattempt, checkKept_renumber]

theorem runBlock (index : Nat) (block : Block) (env : Env) :
    b.runBlock index block (env.renumber ρ) =
      ((a.runBlock index block env).1.map (Prod.map id (Env.renumber ρ)),
        (a.runBlock index block env).2) := by
  have hleaving : ∀ (site : Site) (env : Env) (term : Terminator),
      b.checkLeaving site (env.renumber ρ) term = a.checkLeaving site env term := by
    intro site env term
    cases term with
    | leave returned => simp only [Context.checkLeaving, h.own, checkReturn_renumber]; rfl
    | goto | branch | unreachable => rfl
  simp only [Context.runBlock, h.runFrom, flowsFrom_renumber, hleaving]
  rfl

/-!
## Functions and units

The fixed point is reached alike, and then each block is run once more for its findings.
-/

theorem runIndex (body : Body) (index : Nat) (env : Env) :
    b.runIndex body index (env.renumber ρ) =
      ((a.runIndex body index env).1.map (Prod.map id (Env.renumber ρ)),
        (a.runIndex body index env).2) := by
  unfold Context.runIndex
  split
  · exact h.runBlock index _ env
  · rfl

theorem translated (body : Body) :
    (a.system body).Translated (Env.renumber ρ) (b.system body) where
  injective := Env.renumber_injective ρ
  run := fun block env => congrArg Prod.fst (h.runIndex body block env)
  join := Env.join_renumber ρ

theorem entryEnv : b.entryEnv = a.entryEnv.renumber ρ := by
  have hclauses :
      b.own.requires ++ b.own.releases = (a.own.requires ++ a.own.releases).map
        (·.renumber ρ) := by
    simp [h.own, BoundContract.renumber]
  rw [Context.entryEnv, hclauses, ← Env.renumber_empty ρ]
  exact Env.foldl_renumber ρ
    (fun env clause => Env.set_renumber ρ env clause.inst _) .empty _

theorem record (body : Body) (entries : FinMap Nat Env) :
    b.record body (entries.mapValues fun _ => Env.renumber ρ) = a.record body entries := by
  simp only [Context.record, FinMap.get?_mapValues]
  congr 1
  funext index
  cases entries.get? index with
  | none => rfl
  | some env =>
    show (b.runIndex body index (env.renumber ρ)).2 = _
    rw [h.runIndex]

/-- The analysis finds the same, or fails the same way: this is an equation of results,
without a renumbering on either side. -/
theorem analyze (body : Body) : b.analyze body = a.analyze body := by
  have hentries : b.entries body changeLimit =
      (a.entries body changeLimit).map
        (Prod.map (·.mapValues fun _ => Env.renumber ρ) id) := by
    rw [Context.entries, h.entryEnv]
    exact (h.translated body).solve body.order changeLimit body.entry a.entryEnv
  simp only [Context.analyze, analyzeWithin, h.unit, h.decl, hentries]
  cases a.entries body changeLimit with
  | error block => rfl
  | ok found => simp only [Except.map, Prod.map, h.record, id]

end Renumbered

end Context

namespace Table

variable {a b : Table}

theorem Renumbered.analyzeUnit (h : a.Renumbered ρ b) (severity : Severity)
    (unit : SourceUnit) :
    b.analyzeUnit severity unit = a.analyzeUnit severity unit := by
  have hfunction :
      b.analyzeFunction severity unit.name = a.analyzeFunction severity unit.name := by
    funext decl
    unfold analyzeFunction
    split
    · rfl
    · rename_i body _
      rw [h.contractFor, (Context.renumbered_ofDecl h unit.name decl).analyze body]
      rfl
  rw [Table.analyzeUnit, hfunction, Table.analyzeUnit]

end Table

end Custody
