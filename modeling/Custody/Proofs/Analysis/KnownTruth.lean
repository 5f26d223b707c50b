import Custody.Proofs.Analysis.Fixpoint
import Custody.Proofs.Analysis.OldValue
import Custody.Proofs.Analysis.Suppression
import Custody.Proofs.Env.Answers

/-!
# Branches on locals whose truth is known

A branch on a local goes both ways, and on each the attempts that wait on the local are
decided. If the truth of the local is known it goes one way only, and the environment is
passed on as it is. These are two rules for one thing, and they could part: the first
would decide attempts that wait on a local whose truth is known, the second leaves them.

`branch_agrees` says that they never do. Whatever the body, an environment that comes to
the end of a block has no attempts waiting on a local whose truth is known
(`Env.Decided`), and to test such a local once more changes nothing.

Most of what a body does only takes knowledge of locals away (`Env.Sheds`), and this
cannot spoil it. Four things add knowledge: a test, an assignment of a number, a copy of
a local, and a try-acquire whose result is in a local. The first three find no attempts
on the local. The last finds no truth: either the local has just been rebound, or its
truth, if it had one, was taken for the result.

## Why `Sheds` and not `Decided` for each change

`Decided` is a property of one environment, and to prove it kept by each of the many
changes of a call would repeat one argument. `Sheds` compares two environments,
composes, and is true of nearly all changes, joins included; one lemma (`Decided.sheds`)
then has the argument.

## Where environments come to the end of a block

`ComesTo` has two cases, since a block is run while the iteration goes on and again for
the record. Both start from entry environments of the same run, but the findings come
from the second, so leaving it out would leave out what the user sees.
-/

set_option autoImplicit false

namespace Custody

namespace Env

variable {a b c env : Env} {name : String}

/-- No attempt waits on a local whose truth is known. So a test of such a local, which
is not made, would have had nothing to decide. -/
def Decided (env : Env) : Prop :=
  ∀ name value, env.constants.get? name = some value → env.attemptsOf name = []

/-! ## Changes that take knowledge away -/

/-- The second environment knows the truth of no further local, and in it attempts wait
on no further local. A truth that is kept is the same one. -/
structure Sheds (a b : Env) : Prop where
  constants : b.constants.Within a.constants
  attempts : ∀ name, a.attemptsOf name = [] → b.attemptsOf name = []

theorem Decided.sheds (h : a.Decided) (hsheds : a.Sheds b) : b.Decided :=
  fun name value hknown =>
    hsheds.attempts name (h name value (hsheds.constants name value hknown))

namespace Sheds

theorem refl (env : Env) : env.Sheds env := ⟨.refl _, fun _ h => h⟩

theorem trans (hab : a.Sheds b) (hbc : b.Sheds c) : a.Sheds c :=
  ⟨hbc.constants.trans hab.constants, fun name h => hbc.attempts name (hab.attempts name h)⟩

theorem foldl {α : Type} {f : Env → α → Env} (h : ∀ (env : Env) x, env.Sheds (f env x))
    (list : List α) (env : Env) : env.Sheds (list.foldl f env) := by
  induction list generalizing env with
  | nil => exact .refl env
  | cons x rest ih => exact (h env x).trans (ih (f env x))

theorem of_filter {keep : Attempt → Bool} (hconstants : b.constants = a.constants)
    (hattempts : ∀ name, b.attemptsOf name = (a.attemptsOf name).filter keep) :
    a.Sheds b := by
  refine ⟨by rw [hconstants]; exact .refl _, fun name h => ?_⟩
  rw [hattempts, h]
  rfl

end Sheds

theorem sheds_set (env : Env) (inst : Instance) (state : HeldState) :
    env.Sheds (env.set inst state) := by
  refine ⟨?_, fun name h => ?_⟩
  · rw [constants_set]
    exact .refl _
  · rw [attemptsOf_set]
    exact h

theorem sheds_forgetAttempts (env : Env) (ref : Ref) : env.Sheds (env.forgetAttempts ref) :=
  .of_filter rfl (attemptsOf_forgetAttempts env ref)

theorem sheds_release (env : Env) (inst : Instance) : env.Sheds (env.release inst) := by
  refine .of_filter ?_ (attemptsOf_release env inst)
  unfold release
  split
  · exact constants_set env inst .notHeld
  · exact constants_set env inst .notHeld

theorem sheds_releaseUnresolved (env : Env) (type? : Option CapId) :
    env.Sheds (env.releaseUnresolved type?) :=
  ⟨.refl _, fun _ h => h⟩

theorem sheds_acquire (env : Env) (inst : Instance) (mode : Mode) :
    env.Sheds (env.acquire inst mode) :=
  .of_filter (constants_set env inst (.held mode)) (attemptsOf_acquire env inst mode)

theorem sheds_assert (env : Env) (inst : Instance) (mode : Mode) :
    env.Sheds (env.assert inst mode) := by
  refine ⟨?_, fun name h => ?_⟩
  · unfold assert
    split
    · exact .refl _
    · exact (sheds_set env inst (.held mode)).constants
  · rw [attemptsOf_assert]
    exact h

theorem sheds_rebind (env : Env) (name : String) : env.Sheds (env.rebind name) := by
  refine ⟨FinMap.erase_within _ name, fun other h => ?_⟩
  rw [attemptsOf_rebind, h]
  split <;> rfl

theorem sheds_join (a b : Env) : a.Sheds (a.join b) := by
  refine ⟨FinMap.agreeing_within_left _ _, fun name h => ?_⟩
  show ((a.attempts.agreeing b.attempts).get? name).getD [] = []
  cases hlist : (a.attempts.agreeing b.attempts).get? name with
  | none => rfl
  | some list =>
    have hleft := FinMap.agreeing_within_left a.attempts b.attempts name list hlist
    rw [attemptsOf, hleft] at h
    exact h

/-! ## Changes that add knowledge -/

namespace Decided

theorem setConstant (h : env.Decided) (hnone : env.attemptsOf name = []) (value : Bool) :
    (env.setConstant name value).Decided := by
  intro other truth hknown
  show env.attemptsOf other = []
  simp only [Env.setConstant, FinMap.get?_insert] at hknown
  split at hknown
  · rename_i heq
    rw [heq]
    exact hnone
  · exact h other truth hknown

/-- The target takes over the truth of the source and the attempts on it, of which there
are not both. -/
theorem copyLocal (h : env.Decided) {target : String}
    (htruth : env.constants.get? target = none) (hnone : env.attemptsOf target = [])
    (source : String) : (env.copyLocal target source).Decided := by
  intro other value hknown
  have hattempts : ∀ attempt ∈ (env.copyLocal target source).attemptsOf other,
      attempt ∈ env.attemptsOf other ∨
      (other = target ∧ attempt ∈ env.attemptsOf source) := by
    intro attempt hmem
    obtain ⟨list, hlist, hmem⟩ := mem_attemptsOf.1 hmem
    rcases get?_copyEntry hlist with hold | ⟨heq, hsource⟩
    · exact .inl (mem_attemptsOf.2 ⟨list, hold, hmem⟩)
    · exact .inr ⟨heq, mem_attemptsOf.2 ⟨list, hsource, hmem⟩⟩
  refine List.eq_nil_iff_forall_not_mem.2 fun attempt hmem => ?_
  rcases get?_copyEntry hknown with hold | ⟨rfl, hsource⟩
  · -- The target's own truth is not known, so this is another local.
    have hne : other ≠ target := by
      rintro rfl
      rw [htruth] at hold
      cases hold
    rcases hattempts attempt hmem with hmem | ⟨heq, -⟩
    · simp [h other value hold] at hmem
    · exact hne heq
  · rcases hattempts attempt hmem with hmem | ⟨-, hmem⟩
    · simp [hnone] at hmem
    · simp [h source value hsource] at hmem

theorem addAttempt (h : env.Decided) (hnone : env.constants.get? name = none)
    (attempt : Attempt) :
    (env.addAttempt name attempt).Decided := by
  intro other value hknown
  have hne : other ≠ name := by
    rintro rfl
    have hsome : env.constants.get? other = some value := hknown
    rw [hnone] at hsome
    cases hsome
  rw [attemptsOf_addAttempt, if_neg hne]
  exact h other value hknown

theorem refine (h : env.Decided) (name : String) (truth : Bool) :
    (env.refine name truth).Decided := by
  intro other value hknown
  have hconstants : (env.refine name truth).constants = env.constants.insert name truth :=
    congrArg (·.2.1) (background_refine env name truth)
  rw [hconstants, FinMap.get?_insert] at hknown
  rw [attemptsOf_refine]
  split
  · rfl
  · rename_i hne
    rw [if_neg hne] at hknown
    exact h other value hknown

end Decided

/-- A test that tells nothing new changes nothing. No attempt waits to be decided, and
the truth that is put on record is there already. -/
theorem Decided.refine_eq (h : env.Decided) (hcanonical : env.Canonical) {value : Bool}
    (hknown : env.constants.get? name = some value) : env.refine name value = env := by
  have hnone := h name value hknown
  have hattempts : env.attempts.erase name = env.attempts := by
    refine FinMap.ext_get? fun other => ?_
    rw [FinMap.get?_erase]
    split
    · rename_i heq
      rw [heq, hcanonical.get?_attempts, if_pos hnone]
    · rfl
  have hconstants : env.constants.insert name value = env.constants := by
    refine FinMap.ext_get? fun other => ?_
    rw [FinMap.get?_insert]
    split
    · rename_i heq
      rw [heq, hknown]
    · rfl
  unfold Env.refine
  rw [hnone]
  simp only [List.foldl_nil, Env.setConstant, hattempts, hconstants]

/-- What blocks, tests and joins keep. That environments are canonical is needed because
the list of a local whose attempts are decided is taken off the record. -/
structure Orderly (env : Env) : Prop where
  canonical : env.Canonical
  decided : env.Decided

theorem Orderly.join (h : a.Orderly) (b : Env) : (a.join b).Orderly :=
  ⟨h.canonical.join, h.decided.sheds (a.sheds_join b)⟩

/-! ## Calls -/

/-- If the result of a call is not known, neither is the truth of the local that
receives it. -/
def Fresh (env : Env) (result : CallResult) : Prop :=
  result.value? = none → ∀ name, result.local? = some name → env.constants.get? name = none

variable {result : CallResult}

theorem Fresh.sheds (h : a.Fresh result) (hsheds : a.Sheds b) : b.Fresh result := by
  intro hvalue name hlocal
  cases hknown : b.constants.get? name with
  | none => rfl
  | some value =>
    have hold := hsheds.constants name value hknown
    rw [h hvalue name hlocal] at hold
    cases hold

theorem constants_tryAcquire (env : Env) (inst : Instance) (mode : Mode)
    (success : Bool) (result : CallResult) :
    (env.tryAcquire inst mode success result).constants = env.constants :=
  congrArg (·.2.1) (background_tryAcquire env inst mode success result)

theorem Decided.tryAcquire (h : env.Decided) (hfresh : env.Fresh result)
    (inst : Instance) (mode : Mode) (success : Bool) :
    (env.tryAcquire inst mode success result).Decided := by
  have hforget := sheds_forgetAttempts env inst.ref
  unfold Env.tryAcquire
  cases hvalue : result.value? with
  | some value =>
    dsimp only
    split
    · exact h.sheds (hforget.trans (sheds_set _ inst _))
    · exact h.sheds hforget
  | none =>
    have hset := hforget.trans (sheds_set _ inst .unknown)
    cases hlocal : result.local? with
    | none => exact h.sheds hset
    | some name => exact (h.sheds hset).addAttempt (hfresh.sheds hset hvalue name hlocal) _

theorem Decided.apply (h : env.Decided) (hfresh : env.Fresh result)
    (contract : BoundContract) :
    (env.apply contract result).Decided := by
  unfold Env.apply
  -- Only the try-acquires, which come last, add knowledge.
  have hreleases := Sheds.foldl
    (fun env (clause : BoundClause) => sheds_release env clause.inst) contract.releases env
  have hunresolved :=
    hreleases.trans (.foldl sheds_releaseUnresolved contract.unresolvedReleases _)
  have hacquires := hunresolved.trans (.foldl
    (fun env (clause : BoundClause) => sheds_acquire env clause.inst clause.mode)
    contract.acquires _)
  have hasserts := hacquires.trans (.foldl
    (fun env (clause : BoundClause) => sheds_assert env clause.inst clause.mode)
    contract.asserts _)
  refine (List.foldlRecOn (motive := fun env : Env => env.Decided ∧ env.Fresh result)
    contract.tryAcquires _ ⟨h.sheds hasserts, hfresh.sheds hasserts⟩ ?_).1
  rintro env ⟨hdecided, hfresh⟩ attempt -
  refine ⟨hdecided.tryAcquire hfresh _ _ _, fun hvalue name hlocal => ?_⟩
  rw [constants_tryAcquire]
  exact hfresh hvalue name hlocal

end Env

namespace Context

variable {ctx : Context} {env : Env} {body : Body}

theorem fresh_rebind (env : Env) {result : CallResult} {name : String}
    (hlocal : result.local? = some name) :
    (env.rebind name).Fresh result := by
  intro _ other hother
  rw [hlocal] at hother
  cases hother
  simp [Env.rebind]

/-- Where nothing receives the result, it can still be in a local that an argument
names. Its truth is then taken for the result. -/
theorem fresh_callResult (ctx : Context) (env : Env) (callee : String)
    (args : List String) :
    env.Fresh (ctx.callResult env callee args none) := by
  have hresult : env.Fresh (resultArgument env args) := by
    intro hvalue name hlocal
    unfold resultArgument at hvalue hlocal
    split at hlocal
    · cases hlocal
    · split at hlocal
      · cases hlocal
      · split at hlocal
        · cases hlocal
          simpa [*] using hvalue
        · cases hlocal
  have hnone : env.Fresh { local? := none } := by
    intro _ name hlocal
    cases hlocal
  unfold callResult
  split
  · unfold intrinsicResult
    split
    · split
      · exact hresult
      · exact hnone
    · exact hnone
  · exact hnone

theorem decided_call (h : env.Decided) (callee : String) (args : List String)
    (dest : Option String) :
    (ctx.call env callee args dest).1.Decided := by
  rw [call_eq_finishCall]
  cases dest with
  | none => exact h.apply (ctx.fresh_callResult env callee args) _
  | some name =>
    have hafter := (h.sheds (env.sheds_rebind name)).apply
      (fresh_rebind env (ctx.local?_callResult env callee args name))
        (ctx.callContract env callee args)
    cases hreturns : (ctx.callContract env callee args).returns with
    | none =>
      rw [finishCall_of_returns_eq_none hreturns]
      exact hafter
    | some clause =>
      rw [finishCall_of_returns hreturns]
      exact hafter

theorem decided_assign (h : env.Decided) (dest value : String) :
    (ctx.assign env dest value).1.Decided := by
  unfold assign
  split
  · have hrebind := h.sheds (env.sheds_rebind dest)
    have hnone : (env.rebind dest).attemptsOf dest = [] := by simp [Env.attemptsOf_rebind]
    have htruth : (env.rebind dest).constants.get? dest = none := by simp [Env.rebind]
    dsimp only
    generalize (((Expr.parse value).toOption.map (ctx.track env dest)).getD .nothing) =
      tracked
    cases tracked with
    | nothing => exact hrebind
    | constant truth => exact hrebind.setConstant hnone truth
    | binding target => exact hrebind
    | copy source => exact hrebind.copyLocal htruth hnone source
  · exact h

/-! ## Statements -/

section Keeps

variable {good : Env → Prop}

/-- What checked actions keep, and regions do not touch, statements keep: exempt blocks
do nothing at all. This is for any property of environments, so that an invariant of
statements is proved by looking at actions only. -/
theorem keeps_runStmt
    (hregions : ∀ {env} depth, good env → good (env.restoreRegions depth))
    (hchecked : ∀ {env} action, good env → good (ctx.runChecked env action).1)
    (site : Site) (stmt : Stmt) (h : good env) :
    good (ctx.runStmt 0 site env stmt).1 := by
  cases stmt with
  | simple line action =>
    simp only [runStmt, runAction]
    cases hmarker : action.marker? with
    | some marker =>
      simp only [(passes_runMarker env marker).env]
      exact hregions _ h
    | none =>
      dsimp only
      split
      · exact hchecked action h
      · exact h
  | exempt line stmts =>
    rw [(ctx.passes_runExempt 0 site env line stmts).env_eq]
    exact h

theorem keeps_runFrom
    (hregions : ∀ {env} depth, good env → good (env.restoreRegions depth))
    (hchecked : ∀ {env} action, good env → good (ctx.runChecked env action).1)
    (block index : Nat) (stmts : List Stmt) (h : good env) :
    good (ctx.runFrom block index env stmts).1 := by
  induction stmts generalizing index env with
  | nil => exact h
  | cons stmt rest ih => exact ih (index + 1) (keeps_runStmt hregions hchecked _ stmt h)

end Keeps

theorem decided_runChecked (action : Action) (h : env.Decided) :
    (ctx.runChecked env action).1.Decided := by
  cases action with
  | call callee args dest => exact decided_call h callee args dest
  | assign dest value => exact decided_assign h dest value
  | read path => exact h
  | write path => exact h
  | plain text => exact h
  | suppressBegin => exact h
  | suppressEnd => exact h

theorem orderly_entryEnv (ctx : Context) : ctx.entryEnv.Orderly where
  canonical := ctx.canonical_entryEnv
  decided := by
    have hsheds : Env.empty.Sheds ctx.entryEnv :=
      .foldl (fun env (clause : BoundClause) => env.sheds_set clause.inst _) _ _
    have hempty : Env.empty.Decided := fun name value hknown => by cases hknown
    exact hempty.sheds hsheds

theorem orderly_runFrom (h : env.Orderly) (block index : Nat) (stmts : List Stmt) :
    (ctx.runFrom block index env stmts).1.Orderly := by
  obtain ⟨_, _, hsteered⟩ := ctx.steered_runFrom block index stmts env.steering
  refine ⟨(hsteered env rfl).2.canonical h.canonical, ?_⟩
  exact keeps_runFrom (fun _ hdecided => hdecided)
    (fun action => decided_runChecked action) block index stmts h.decided

theorem orderly_of_mem_runIndex (h : env.Orderly) {index target : Nat} {out : Env}
    (hflow : (target, out) ∈ (ctx.runIndex body index env).1) : out.Orderly := by
  refine ⟨canonical_of_mem_runIndex h.canonical hflow, ?_⟩
  obtain ⟨block, -, hflow⟩ := mem_runIndex hflow
  have hend : (ctx.runFrom index 0 env block.stmts).1.Orderly :=
    orderly_runFrom h index 0 block.stmts
  rcases (mem_flowsFrom hflow).2 with rfl | ⟨name, truth, rfl⟩
  · exact hend.decided
  · exact hend.decided.refine name truth

/-! ## Whole runs -/

open Custody.Flow (Moment Leads)

theorem orderly_of_leads {moment : Moment Env}
    (h : Leads (ctx.system body) body.order (ctx.start body) moment) :
    moment.Holds Env.Orderly :=
  h.holds (fun henv hflow => orderly_of_mem_runIndex henv hflow) (fun ha _ => ha.join _)
    (Moment.holds_start _ _ ctx.orderly_entryEnv)

/-- The environments in which an analysis comes to the end of a block: when the block is
run from the entry environment it has at some moment of the iteration, and when what is
found is recorded in the end. -/
inductive ComesTo (ctx : Context) (body : Body) (index : Nat) : Env → Prop where
  | iterating {moment : Moment Env} {block : Block} {entry : Env}
      (hleads : Leads (ctx.system body) body.order (ctx.start body) moment)
      (hblock : body.blocks[index]? = some block)
        (hentry : moment.progress.entries.get? index = some entry) :
      ComesTo ctx body index (ctx.runFrom index 0 entry block.stmts).1
  | recording {limit visits : Nat} {entries : FinMap Nat Env} {block : Block} {entry : Env}
      (hentries : ctx.entries body limit = .ok (entries, visits))
      (hblock : body.blocks[index]? = some block)
        (hentry : entries.get? index = some entry) :
      ComesTo ctx body index (ctx.runFrom index 0 entry block.stmts).1

theorem ComesTo.orderly {index : Nat} (h : ctx.ComesTo body index env) : env.Orderly := by
  cases h with
  | iterating hleads _ hentry =>
    exact orderly_runFrom ((orderly_of_leads hleads).entries hentry) index 0 _
  | recording hentries _ hentry =>
    obtain ⟨last, hleads, -, -, rfl, -⟩ := Flow.leads_of_solve hentries
    exact orderly_runFrom ((orderly_of_leads hleads).entries hentry) index 0 _

/-- **A branch on a local whose truth is known does what any branch does, on the side it
takes.** In an environment that comes to the end of a block, no local has both a known
truth and attempts that wait on it. To test a local whose truth is known for this truth
changes nothing. -/
theorem branch_agrees {index : Nat} (h : ctx.ComesTo body index env) :
    (∀ name, env.constants.get? name = none ∨ env.attemptsOf name = []) ∧
    ∀ name value, env.constants.get? name = some value →
      env.refine name value = env ∧
      ∀ yes no, branch env (.holds name) yes no =
        [(if value then yes else no, env.refine name value)] ∧
        branch env (.fails name) yes no =
          [(if value then no else yes, env.refine name value)] := by
  have horderly := h.orderly
  constructor
  · intro name
    cases hknown : env.constants.get? name with
    | none => exact .inl rfl
    | some value => exact .inr (horderly.decided name value hknown)
  · intro name value hknown
    have hsame := horderly.decided.refine_eq horderly.canonical hknown
    refine ⟨hsame, fun yes no => ?_⟩
    rw [hsame]
    cases value <;> simp [branch, branch.onTruth, hknown]

def quickDecl : FunctionDecl :=
  { (default : FunctionDecl) with
    name := "attempt"
    locals := [⟨"lock", "spinlock_t"⟩, ⟨"ok", "int"⟩, ⟨"quick", "int"⟩] }

/-- It comes to a truth of `quick` on two paths, tries for its lock, and tests `quick`
before the result. -/
def quickBody : Body :=
  ⟨0, [⟨[], .branch .unknown 1 2⟩,
    ⟨[.simple none (.assign "quick" "1")], .goto 3⟩,
    ⟨[.simple none (.assign "quick" "2")], .goto 3⟩,
    ⟨[.simple none (.call "__cond_acquire" ["&lock", "ok"] none)],
      .branch (.holds "quick") 4 5⟩,
    ⟨[], .branch (.holds "ok") 5 5⟩,
    ⟨[], .leave none⟩]⟩

/-- The test of `quick` comes while an attempt waits on `ok`, and leaves it waiting. Its
truth is known although it was assigned on two paths, since they agree. -/
theorem branch_agrees_quickBody :
    ∃ env, (ofDecl default "unit" quickDecl).ComesTo quickBody 3 env ∧
      env.constants.get? "quick" = some true ∧
      env.attemptsOf "ok" ≠ [] ∧ env.refine "quick" true = env := by
  have hrun :
      (((ofDecl default "unit" quickDecl).entries quickBody changeLimit).toOption.bind
        fun result =>
          (result.1.get? 3).map fun entry =>
            let env := ((ofDecl default "unit" quickDecl).runFrom 3 0 entry
              [.simple none (.call "__cond_acquire" ["&lock", "ok"] none)]).1
            (env.constants.get? "quick", (env.attemptsOf "ok").isEmpty))
      = some (some true, false) := by decide +kernel
  cases hentries : (ofDecl default "unit" quickDecl).entries quickBody changeLimit with
  | error block => simp [hentries, Except.toOption] at hrun
  | ok result =>
    obtain ⟨entries, visits⟩ := result
    simp only [hentries, Except.toOption, Option.bind_some, Option.map_eq_some_iff,
      Prod.mk.injEq] at hrun
    obtain ⟨entry, hentry, hknown, hwaits⟩ := hrun
    have hcomes := ComesTo.recording hentries (rfl : quickBody.blocks[3]? = some _) hentry
    refine ⟨_, hcomes, hknown, fun hnone => ?_,
      ((branch_agrees hcomes).2 "quick" true hknown).1⟩
    simp only [hnone] at hwaits
    cases hwaits

end Context

end Custody
