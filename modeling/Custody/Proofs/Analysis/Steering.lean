import Custody.Analysis.Basic
import Custody.Proofs.Env.Evolution

/-!
# Which references a block can name

A body may rebind pointers as it loops, and what a statement names depends on what the
pointers are bound to. What it does *not* depend on is what is held, asserted, attempted
or known of the other locals: between two environments with the same bindings and the
same open regions, a statement names the same references and leaves the same bindings
and regions behind.

`Steered` is that sentence for one change of environments, and `steered_runStmt` says it
of every statement. The consequence for a whole block is `exists_named_runIndex`: for
each way the locals may be bound there is one finite set of references that every run of
the block stays in. That is the finiteness the convergence of the iteration rests on.

The set is not computed. It is enough that it exists before the environment is chosen.

## Why the quantifiers stand as they do

In `Steered` the steering comes first, then the names, and then the environment. With
the environment before the names the statement would be true of any change, because
every single run names finitely many references. It is that all environments with one
steering share one set which bounds the references of an iteration in which environments
go on changing.

That changes also leave one steering behind, for all of these environments, is what
makes `Steered` compose (`Steered.comp`): the second change needs to know the steering
it starts from before it can say what it names.
-/

set_option autoImplicit false

namespace Custody

/-- An environment that knows nothing but how the names are decided. It stands for all
that have this steering, since a block names the same references from each of them. -/
def Env.ofSteering (key : FinMap String Ref × Nat) : Env :=
  { Env.empty with bindings := key.1, suppression := key.2 }

/-- A change whose course is decided by the steering of the environment: it leaves a
steering and names references that depend on nothing else. -/
def Steered (f : Env → Env) : Prop :=
  ∀ key, ∃ key', ∃ named : Finset Ref, ∀ env : Env, env.steering = key →
    (f env).steering = key' ∧ Env.Evolves named env (f env)

namespace Steered

theorem id : Steered fun env => env :=
  fun key => ⟨key, ∅, fun env h => ⟨h, .refl env⟩⟩

theorem comp {f g : Env → Env} (hf : Steered f) (hg : Steered g) :
    Steered fun env => g (f env) := by
  intro key
  obtain ⟨key', named, hf⟩ := hf key
  obtain ⟨key'', named', hg⟩ := hg key'
  refine ⟨key'', named ∪ named', fun env h => ?_⟩
  obtain ⟨hkey', hevolves⟩ := hf env h
  obtain ⟨hkey'', hevolves'⟩ := hg (f env) hkey'
  refine ⟨hkey'', (hevolves.mono ?_).trans (hevolves'.mono ?_)⟩
  · exact Finset.coe_subset.2 Finset.subset_union_left
  · exact Finset.coe_subset.2 Finset.subset_union_right

theorem ite {f g : Env → Env} (test : FinMap String Ref × Nat → Bool) (hf : Steered f)
    (hg : Steered g) : Steered fun env => if test env.steering then f env else g env := by
  intro key
  cases htest : test key with
  | true =>
    obtain ⟨key', named, hf⟩ := hf key
    refine ⟨key', named, fun env h => ?_⟩
    simp only [h, htest, if_true]
    exact hf env h
  | false =>
    obtain ⟨key', named, hg⟩ := hg key
    refine ⟨key', named, fun env h => ?_⟩
    simp only [h, htest, Bool.false_eq_true, if_false]
    exact hg env h

/-- The usual way to see it: the steering left behind is a function of the steering
found, and so are the names. -/
theorem of_congr {f : Env → Env}
    (hsteering : ∀ {a b : Env}, a.steering = b.steering → (f a).steering = (f b).steering)
    (hnamed : ∀ key, ∃ named : List Ref, ∀ env : Env, env.steering = key →
      Env.Evolves {ref | ref ∈ named} env (f env)) : Steered f := by
  intro key
  obtain ⟨named, hnamed⟩ := hnamed key
  refine ⟨(f (.ofSteering key)).steering, named.toFinset, fun env h => ⟨hsteering h, ?_⟩⟩
  exact (hnamed env h).mono fun ref href => List.mem_toFinset.2 href

end Steered

/-! ## Names -/

namespace Context

variable (ctx : Context) {a b : Env}

theorem root_congr (h : a.steering = b.steering) : ctx.root a = ctx.root b := by
  have hbindings : a.bindings = b.bindings := congrArg Prod.fst h
  funext name
  rw [root, root, hbindings]

theorem operand?_congr (h : a.steering = b.steering) : ctx.operand? a = ctx.operand? b := by
  funext text
  rw [operand?, operand?, ctx.root_congr h]

theorem instance?_congr (h : a.steering = b.steering) :
    ctx.instance? a = ctx.instance? b := by
  funext text
  rw [instance?, instance?, ctx.operand?_congr h]

theorem boundContract_congr (h : a.steering = b.steering) :
    ctx.boundContract a = ctx.boundContract b := by
  funext callee args
  rw [boundContract, boundContract, ctx.operand?_congr h]

theorem track_congr (h : a.steering = b.steering) : ctx.track a = ctx.track b := by
  funext dest expr
  unfold track target?
  rw [ctx.root_congr h]

end Context

/-! ## Calls and assignments -/

namespace Env

variable {a b : Env}

theorem steering_rebind_congr (name : String) (h : a.steering = b.steering) :
    (a.rebind name).steering = (b.rebind name).steering := by
  obtain ⟨hbindings, hregions⟩ := Prod.mk.inj h
  simp only [steering, rebind, weaken, hbindings, hregions]

theorem steering_bind_congr (name : String) (target : Ref) (h : a.steering = b.steering) :
    (a.bind name target).steering = (b.bind name target).steering := by
  obtain ⟨hbindings, hregions⟩ := Prod.mk.inj h
  simp only [steering, bind, hbindings, hregions]

theorem steering_copyLocal_congr (target source : String) (h : a.steering = b.steering) :
    (a.copyLocal target source).steering = (b.copyLocal target source).steering := by
  obtain ⟨hbindings, hregions⟩ := Prod.mk.inj h
  simp only [steering, copyLocal, hbindings, hregions]

end Env

namespace Context

theorem steering_finishCall_congr {a b : Env} (contract : BoundContract)
    (ra rb : CallResult) (dest : Option String) (h : a.steering = b.steering) :
    (finishCall a contract ra dest).steering =
      (finishCall b contract rb dest).steering := by
  cases dest with
  | none =>
    show (a.apply contract ra).steering = (b.apply contract rb).steering
    rw [Env.steering_apply, Env.steering_apply, h]
  | some name =>
    have happly : ((a.rebind name).apply contract ra).steering
        = ((b.rebind name).apply contract rb).steering := by
      rw [Env.steering_apply, Env.steering_apply, Env.steering_rebind_congr name h]
    unfold finishCall
    cases contract.returns with
    | none => exact happly
    | some clause => exact Env.steering_bind_congr name _ happly

theorem evolves_finishCall (env : Env) (contract : BoundContract) (result : CallResult)
    (dest : Option String) :
    Env.Evolves {ref | ref ∈ contract.gains} env (finishCall env contract result dest) := by
  cases dest with
  | none => exact Env.evolves_apply env contract result
  | some name =>
    have happly := (Env.evolves_rebind env name).trans
      (Env.evolves_apply (env.rebind name) contract result)
    unfold finishCall
    cases contract.returns with
    | none => exact happly
    | some clause => exact happly.trans (.of_eq rfl rfl)

theorem steered_call (ctx : Context) (callee : String) (args : List String)
    (dest : Option String) :
    Steered fun env => (ctx.call env callee args dest).1 := by
  cases hintrinsic : Intrinsic.ofName? callee with
  | none =>
    simp only [call, hintrinsic]
    refine .of_congr (fun {a b} h => ?_) (fun key => ?_)
    · rw [ctx.boundContract_congr h]
      exact steering_finishCall_congr _ _ _ dest h
    · refine ⟨(ctx.boundContract (.ofSteering key) callee args).gains, fun env h => ?_⟩
      rw [ctx.boundContract_congr
        (show env.steering = (Env.ofSteering key).steering from h)]
      exact evolves_finishCall env _ _ dest
  | some intrinsic =>
    simp only [call, hintrinsic]
    refine .of_congr (fun {a b} h => ?_) (fun key => ?_)
    · rw [ctx.instance?_congr h]
      exact steering_finishCall_congr _ _ _ dest h
    · refine ⟨(intrinsicContract callee args
        (args.head?.bind (ctx.instance? (.ofSteering key))) intrinsic).gains,
        fun env h => ?_⟩
      rw [ctx.instance?_congr (show env.steering = (Env.ofSteering key).steering from h)]
      exact evolves_finishCall env _ _ dest

theorem steering_learn_congr {a b : Env} (dest : String) (tracked : Tracked)
    (h : a.steering = b.steering) :
    (learn a dest tracked).steering = (learn b dest tracked).steering := by
  cases tracked with
  | nothing => exact h
  | constant value => exact h
  | binding target => exact Env.steering_bind_congr dest target h
  | copy source => exact Env.steering_copyLocal_congr dest source h

theorem evolves_learn {named : Set Ref} (env : Env) (dest : String) (tracked : Tracked) :
    Env.Evolves named env (learn env dest tracked) := by
  cases tracked with
  | nothing => exact .refl env
  | constant value => exact .of_eq rfl rfl
  | binding target => exact .of_eq rfl rfl
  | copy source => exact Env.evolves_copyLocal env dest source

theorem steered_assign (ctx : Context) (dest value : String) :
    Steered fun env => (ctx.assign env dest value).1 := by
  unfold assign
  by_cases hdest : ctx.vars.contains dest
  · simp only [hdest, if_true]
    refine .of_congr (fun {a b} h => ?_) (fun key => ⟨[], fun env h => ?_⟩)
    · rw [ctx.track_congr h]
      exact steering_learn_congr dest _ (Env.steering_rebind_congr dest h)
    · exact (Env.evolves_rebind env dest).trans (evolves_learn _ dest _)
  · simp only [hdest]
    exact .id

/-! ## Statements -/

theorem steered_runMarker (marker : Marker) :
    Steered fun env => (runMarker env marker).1 := by
  cases marker with
  | disable =>
    refine .of_congr (fun {a b} h => ?_) (fun key => ⟨[], fun env _ => .of_eq rfl rfl⟩)
    obtain ⟨hbindings, hregions⟩ := Prod.mk.inj h
    simp only [runMarker, Env.steering, Env.enterRegion, hbindings, hregions]
  | enable =>
    refine .of_congr (fun {a b} h => ?_) (fun key => ⟨[], fun env _ => ?_⟩)
    · obtain ⟨hbindings, hregions⟩ := Prod.mk.inj h
      unfold runMarker Env.leaveRegion?
      rw [hregions]
      cases b.suppression with
      | zero => exact h
      | succ depth => simp only [Env.steering, hbindings]
    · unfold runMarker Env.leaveRegion?
      cases env.suppression with
      | zero => exact .refl env
      | succ depth => exact .of_eq rfl rfl

theorem steered_runChecked (ctx : Context) (action : Action) :
    Steered fun env => (ctx.runChecked env action).1 := by
  cases action with
  | call callee args dest => exact ctx.steered_call callee args dest
  | assign dest value => exact ctx.steered_assign dest value
  | read path => exact .id
  | write path => exact .id
  | plain text => exact .id
  | suppressBegin => exact .id
  | suppressEnd => exact .id

theorem steered_runAction (ctx : Context) (exempt : Nat) (site : Site) (action : Action) :
    Steered fun env => (ctx.runAction exempt site env action).1 := by
  cases hmarker : action.marker? with
  | some marker =>
    simp only [runAction, hmarker]
    exact steered_runMarker marker
  | none =>
    have hsplit : (fun env => (ctx.runAction exempt site env action).1)
        = fun env : Env =>
      if checksEnabled exempt env.steering.2 then (ctx.runChecked env action).1
            else env := by
      funext env
      simp only [runAction, hmarker, Env.steering]
      by_cases henabled : checksEnabled exempt env.suppression <;> simp [henabled]
    rw [hsplit]
    exact .ite (fun key => checksEnabled exempt key.2) (ctx.steered_runChecked action) .id

mutual

theorem steered_runStmt (ctx : Context) (exempt : Nat) (site : Site) (stmt : Stmt) :
    Steered fun env => (ctx.runStmt exempt site env stmt).1 := by
  cases stmt with
  | simple line action =>
    simp only [runStmt]
    exact ctx.steered_runAction exempt _ action
  | exempt line body =>
    intro key
    obtain ⟨key', named, hbody⟩ :=
      steered_runStmts ctx (exempt + 1) { site with line := line.or site.line } body key
    -- The regions are put back to what they were on entry, so only the bindings come
    -- from the body.
    refine ⟨(key'.1, key.2), named, fun env h => ?_⟩
    obtain ⟨hkey', hevolves⟩ := hbody env h
    have hregions : env.suppression = key.2 := congrArg Prod.snd h
    simp only [runStmt]
    split
    · rename_i heq
      refine ⟨?_, hevolves⟩
      rw [← hkey', ← hregions, ← heq]
      rfl
    · refine ⟨?_, hevolves.trans (.of_eq rfl rfl)⟩
      rw [← hkey', ← hregions]
      rfl

theorem steered_runStmts (ctx : Context) (exempt : Nat) (site : Site) (stmts : List Stmt) :
    Steered fun env => (ctx.runStmts exempt site env stmts).1 := by
  cases stmts with
  | nil =>
    simp only [runStmts]
    exact .id
  | cons stmt rest =>
    simp only [runStmts]
    exact (steered_runStmt ctx exempt site stmt).comp
      (steered_runStmts ctx exempt site rest)

end

theorem steered_runFrom (ctx : Context) (block index : Nat) (stmts : List Stmt) :
    Steered fun env => (ctx.runFrom block index env stmts).1 := by
  induction stmts generalizing index with
  | nil => exact .id
  | cons stmt rest ih =>
    simp only [runFrom]
    exact (ctx.steered_runStmt 0 ⟨block, index, none⟩ stmt).comp (ih (index + 1))

/-! ## Blocks -/

/-- What flows on goes to a successor, and is the environment at the end of the block,
refined at most. -/
theorem mem_flowsFrom {env out : Env} {term : Terminator} {target : Nat}
    (h : (target, out) ∈ flowsFrom env term) :
    target ∈ term.successors ∧ (out = env ∨ ∃ name truth, out = env.refine name truth) := by
  cases term with
  | leave value => cases h
  | unreachable => cases h
  | goto target' =>
    cases List.mem_singleton.1 h
    exact ⟨List.mem_singleton_self _, .inl rfl⟩
  | branch cond yes no =>
    -- A test of a variable, on either truth.
    have htruth : ∀ name wanted, (target, out) ∈ branch.onTruth env yes no name wanted →
        target ∈ [yes, no] ∧ (out = env ∨ ∃ name truth, out = env.refine name truth) := by
      intro name wanted h
      unfold branch.onTruth at h
      split at h
      · cases List.mem_singleton.1 h
        refine ⟨?_, .inl rfl⟩
        split <;> simp
      · simp only [List.mem_cons, Prod.mk.injEq, List.not_mem_nil, or_false] at h
        rcases h with ⟨rfl, rfl⟩ | ⟨rfl, rfl⟩
        · exact ⟨by simp, .inr ⟨_, _, rfl⟩⟩
        · exact ⟨by simp, .inr ⟨_, _, rfl⟩⟩
    cases cond with
    | holds name => exact htruth name true h
    | fails name => exact htruth name false h
    | unknown =>
      simp only [flowsFrom, branch, List.mem_cons, Prod.mk.injEq, List.not_mem_nil,
        or_false] at h
      rcases h with ⟨rfl, rfl⟩ | ⟨rfl, rfl⟩
      · exact ⟨by simp [Terminator.successors], .inl rfl⟩
      · exact ⟨by simp [Terminator.successors], .inl rfl⟩

theorem mem_runIndex {ctx : Context} {body : Body} {index target : Nat} {env out : Env}
    (h : (target, out) ∈ (ctx.runIndex body index env).1) :
    ∃ block, body.blocks[index]? = some block ∧
      (target, out) ∈ flowsFrom (ctx.runFrom index 0 env block.stmts).1 block.term := by
  unfold runIndex at h
  cases hblock : body.blocks[index]? with
  | none => simp [hblock] at h
  | some block =>
    rw [hblock] at h
    exact ⟨block, rfl, h⟩

theorem mem_successors_of_mem_runIndex {ctx : Context} {body : Body} {index target : Nat}
    {env out : Env} (h : (target, out) ∈ (ctx.runIndex body index env).1) :
    target ∈ body.successors index := by
  obtain ⟨block, hblock, hflow⟩ := mem_runIndex h
  simp [Body.successors, hblock, (mem_flowsFrom hflow).1]

/-- **A block names finitely many references, once its steering is known.** The test at
its end names none: the attempts it decides are in the environment already. -/
theorem exists_named_runIndex (ctx : Context) (body : Body) (index : Nat)
    (key : FinMap String Ref × Nat) :
    ∃ named : Finset Ref, ∀ env : Env, env.steering = key →
      ∀ target out, (target, out) ∈ (ctx.runIndex body index env).1 →
        Env.Evolves named env out := by
  cases hblock : body.blocks[index]? with
  | none =>
    refine ⟨∅, fun env _ target out h => ?_⟩
    obtain ⟨block, hblock', -⟩ := mem_runIndex h
    rw [hblock] at hblock'
    cases hblock'
  | some block =>
    obtain ⟨_, named, hrun⟩ := ctx.steered_runFrom index 0 block.stmts key
    refine ⟨named, fun env hkey target out h => ?_⟩
    obtain ⟨block', hblock', hflow⟩ := mem_runIndex h
    rw [hblock] at hblock'
    cases hblock'
    have hrun := (hrun env hkey).2
    rcases (mem_flowsFrom hflow).2 with rfl | ⟨name, truth, rfl⟩
    · exact hrun
    · exact hrun.trans (Env.evolves_refine _ name truth)

theorem canonical_of_mem_runIndex {ctx : Context} {body : Body} {index target : Nat}
    {env out : Env} (hcanonical : env.Canonical)
    (h : (target, out) ∈ (ctx.runIndex body index env).1) :
    out.Canonical := by
  obtain ⟨named, hnamed⟩ := ctx.exists_named_runIndex body index env.steering
  exact (hnamed env rfl target out h).canonical hcanonical

theorem canonical_entryEnv (ctx : Context) : ctx.entryEnv.Canonical := by
  have hfold : Env.Evolves Set.univ Env.empty ctx.entryEnv :=
    .foldl (fun env clause _ =>
      (Env.evolves_set env clause.inst _).mono (Set.subset_univ _)) _
  exact hfold.canonical Env.canonical_empty

end Context

end Custody
