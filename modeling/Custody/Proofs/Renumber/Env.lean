import Custody.Contract.Binding
import Custody.Env.Check
import Custody.Env.Effects
import Custody.Proofs.FinMap
import Mathlib.Logic.Embedding.Basic

/-!
# Environments under another numbering of capability types

The numbers of capability types come from the order in which the types are declared, and
nothing should depend on them. A renumbering `ρ` gives each type another number,
different ones to different types. Here every change of an environment is shown to
commute with it, and every answer that holds no number to be the same.

Only equality of numbers is ever tested, so that `ρ` is injective is all that is needed
of it. It is tested where instances may be the same object
(`Instance.mayAlias_renumber`), where something of a type is released and it is not
known what (`releaseUnresolved_renumber`), and where two paths have to agree on what a
local was tried for (`join_renumber`). A renumbering that gave two types one number
would make instances alias that do not.

The numbers stand in the types of facts and attempts, which are values of maps.
References, the keys, have none. So renumbering is `FinMap.mapValues`, and most lemmas
here are its equations for `insert`, `erase` and `merge`, with one unfolding.

## How the lemmas are named

Each is named for the function it is about, with `_renumber`. It says that the function
on renumbered arguments gives the renumbered result; where the result has no number in
it, that it is the same. Obligations that are not met give texts, which have none, so
that the last section is all of the second kind.
-/

set_option autoImplicit false

namespace Custody

variable (ρ : CapId ↪ CapId)

/-!
## Renumbering data

From one instance up to an environment. That `renumber` is injective is shown along the
way: the iteration compares environments, and has to find the same changes.
-/

theorem beq_number (a b : CapId) : (ρ a == ρ b) = (a == b) := by
  rw [Bool.eq_iff_iff]
  simp

def Instance.renumber (inst : Instance) : Instance :=
  { inst with type? := inst.type?.map ρ }

@[simp] theorem Instance.ref_renumber (inst : Instance) :
    (inst.renumber ρ).ref = inst.ref := rfl

theorem Instance.renumber_injective : Function.Injective (Instance.renumber ρ) := by
  rintro ⟨ref, type⟩ ⟨ref', type'⟩ h
  simp only [renumber, Instance.mk.injEq] at h
  obtain ⟨rfl, htype⟩ := h
  rw [Option.map_injective ρ.injective htype]

@[simp] theorem Instance.mayAlias_renumber (a b : Instance) :
    (a.renumber ρ).mayAlias (b.renumber ρ) = a.mayAlias b := by
  obtain ⟨ref, type⟩ := a
  obtain ⟨ref', type'⟩ := b
  cases type <;> cases type' <;> simp [renumber, mayAlias, beq_number]

def BoundClause.renumber (clause : BoundClause) : BoundClause :=
  { clause with inst := clause.inst.renumber ρ }

def BoundAttempt.renumber (attempt : BoundAttempt) : BoundAttempt :=
  { attempt with clause := attempt.clause.renumber ρ }

def BoundContract.renumber (contract : BoundContract) : BoundContract where
  callee := contract.callee
  requires := contract.requires.map (·.renumber ρ)
  excludes := contract.excludes.map (·.renumber ρ)
  acquires := contract.acquires.map (·.renumber ρ)
  releases := contract.releases.map (·.renumber ρ)
  tryAcquires := contract.tryAcquires.map (·.renumber ρ)
  asserts := contract.asserts.map (·.renumber ρ)
  returns := contract.returns.map (·.renumber ρ)
  unresolvedReleases := contract.unresolvedReleases.map (·.map ρ)

def Fact.renumber (fact : Fact) : Fact := { fact with type? := fact.type?.map ρ }

@[simp] theorem Fact.state_renumber (fact : Fact) :
    (fact.renumber ρ).state = fact.state := rfl

theorem Fact.renumber_injective : Function.Injective (Fact.renumber ρ) := by
  rintro ⟨state, type⟩ ⟨state', type'⟩ h
  simp only [renumber, Fact.mk.injEq] at h
  obtain ⟨rfl, htype⟩ := h
  rw [Option.map_injective ρ.injective htype]

def Attempt.renumber (attempt : Attempt) : Attempt :=
  { attempt with inst := attempt.inst.renumber ρ }

theorem Attempt.renumber_injective : Function.Injective (Attempt.renumber ρ) := by
  rintro ⟨inst, mode, success, prior⟩ ⟨inst', mode', success', prior'⟩ h
  simp only [renumber, Attempt.mk.injEq] at h
  obtain ⟨hinst, rfl, rfl, rfl⟩ := h
  rw [Instance.renumber_injective ρ hinst]

namespace Env

/-- The environment with other numbers for the capability types. -/
def renumber (env : Env) : Env :=
  { env with
    held := env.held.mapValues fun _ => Fact.renumber ρ
    attempts := env.attempts.mapValues fun _ => List.map (Attempt.renumber ρ) }

theorem renumber_injective : Function.Injective (renumber ρ) := by
  rintro ⟨held, asserted, attempts, bindings, constants, suppression, conflict⟩
    ⟨held', asserted', attempts', bindings', constants', suppression', conflict'⟩ h
  simp only [renumber, Env.mk.injEq] at h
  obtain ⟨hheld, rfl, hattempts, rfl, rfl, rfl, rfl⟩ := h
  rw [FinMap.mapValues_injective _ (Fact.renumber_injective ρ) hheld,
    FinMap.mapValues_injective _
      (List.map_injective_iff.2 (Attempt.renumber_injective ρ)) hattempts]

@[simp] theorem renumber_empty : empty.renumber ρ = empty := rfl

/-! ## Questions -/

@[simp] theorem state_renumber (env : Env) (ref : Ref) :
    (env.renumber ρ).state ref = env.state ref := by
  simp only [state, renumber, FinMap.get?_mapValues]
  cases env.held.get? ref <;> rfl

theorem type?_renumber (env : Env) (ref : Ref) :
    (env.renumber ρ).type? ref = (env.type? ref).map ρ := by
  simp only [type?, renumber, FinMap.get?_mapValues]
  cases env.held.get? ref <;> rfl

theorem attemptsOf_renumber (env : Env) (name : String) :
    (env.renumber ρ).attemptsOf name = (env.attemptsOf name).map (Attempt.renumber ρ) := by
  simp only [attemptsOf, renumber, FinMap.get?_mapValues]
  cases env.attempts.get? name <;> rfl

/-!
## Single changes

Of changes that take a condition on instances, the condition is renumbered too: `weaken`
and `keepAttempts` are given two of them, that answer alike.
-/

theorem set_renumber (env : Env) (inst : Instance) (state : HeldState) :
    (env.renumber ρ).set (inst.renumber ρ) state = (env.set inst state).renumber ρ := by
  unfold set
  split
  · simp [renumber, FinMap.mapValues_erase]
  · have htype :
        (inst.type?.map ρ).or ((env.type? inst.ref).map ρ) =
          (inst.type?.or (env.type? inst.ref)).map ρ := by
      cases inst.type? <;> rfl
    rw [type?_renumber]
    simp [renumber, Instance.renumber, FinMap.mapValues_insert, Fact.renumber, htype]

theorem copyEntry_mapValues {ν μ : Type} (f : ν → μ) (map : FinMap String ν)
    (target source : String) :
    copyEntry (map.mapValues fun _ => f) target source =
      (copyEntry map target source).mapValues fun _ => f := by
  simp only [copyEntry, FinMap.get?_mapValues]
  cases map.get? source with
  | none => rfl
  | some value => exact (FinMap.mapValues_insert f map target value).symm

theorem copyLocal_renumber (env : Env) (target source : String) :
    (env.renumber ρ).copyLocal target source =
      (env.copyLocal target source).renumber ρ := by
  simp [copyLocal, renumber, copyEntry_mapValues]

theorem keepAttempts_renumber (attempts : FinMap String (List Attempt))
    {keep keep' : Attempt → Bool}
    (hkeep : ∀ attempt, keep' (attempt.renumber ρ) = keep attempt) :
    keepAttempts (attempts.mapValues fun _ => List.map (Attempt.renumber ρ)) keep' =
      (keepAttempts attempts keep).mapValues fun _ => List.map (Attempt.renumber ρ) := by
  have hlist : ∀ list : List Attempt,
      (list.map (Attempt.renumber ρ)).filter keep' = (list.filter keep).map
        (Attempt.renumber ρ) := by
    intro list
    rw [List.filter_map]
    simp [Function.comp_def, hkeep]
  apply FinMap.ext_get?
  intro name
  simp only [keepAttempts, FinMap.get?_filter, FinMap.get?_mapValues]
  cases attempts.get? name with
  | none => rfl
  | some list => cases h : (list.filter keep).isEmpty <;> simp [Option.filter, hlist, h]

theorem forgetAttempts_renumber (env : Env) (ref : Ref) :
    (env.renumber ρ).forgetAttempts ref = (env.forgetAttempts ref).renumber ρ := by
  simp only [forgetAttempts, renumber]
  rw [keepAttempts_renumber]
  exact fun _ => rfl

theorem weaken_renumber (env : Env) {affected affected' : Instance → Bool}
    (haffected : ∀ inst, affected' (inst.renumber ρ) = affected inst) :
    (env.renumber ρ).weaken affected' = (env.weaken affected).renumber ρ := by
  simp only [weaken, renumber]
  congr 1
  apply FinMap.ext_get?
  intro ref
  simp only [FinMap.get?_mapValues]
  cases env.held.get? ref with
  | none => rfl
  | some fact =>
    have hfact : affected' ⟨ref, fact.type?.map ρ⟩ = affected ⟨ref, fact.type?⟩ :=
      haffected ⟨ref, fact.type?⟩
    cases h : affected ⟨ref, fact.type?⟩ <;> simp [hfact, h, Fact.renumber]

theorem rebind_renumber (env : Env) (name : String) :
    (env.renumber ρ).rebind name = (env.rebind name).renumber ρ := by
  have hweaken :
      (env.renumber ρ).weaken (·.ref.isRootedAt name) =
        (env.weaken (·.ref.isRootedAt name)).renumber ρ :=
    weaken_renumber ρ env fun _ => rfl
  have hattempts :
      keepAttempts ((env.renumber ρ).attempts.erase name)
        (!·.inst.ref.isRootedAt name) =
        (keepAttempts (env.attempts.erase name) (!·.inst.ref.isRootedAt name)).mapValues
          fun _ => List.map (Attempt.renumber ρ) := by
    simp only [renumber]
    rw [← FinMap.mapValues_erase]
    exact keepAttempts_renumber ρ _ fun _ => rfl
  simp only [rebind, hweaken, hattempts]
  rfl

theorem leaveRegion?_renumber (env : Env) :
    (env.renumber ρ).leaveRegion? = env.leaveRegion?.map (renumber ρ) := by
  obtain ⟨held, asserted, attempts, bindings, constants, suppression, conflict⟩ := env
  cases suppression <;> rfl

/-! ## Merging paths and testing locals -/

theorem joinFacts_renumber (a b : Option Fact) :
    joinFacts (a.map (Fact.renumber ρ)) (b.map (Fact.renumber ρ)) = (joinFacts a b).map
      (Fact.renumber ρ) := by
  have hstate : ∀ fact? : Option Fact,
      (fact?.map (Fact.renumber ρ)).map Fact.state = fact?.map Fact.state := by
    intro fact?
    cases fact? <;> rfl
  have htype : ∀ fact? : Option Fact,
      (fact?.map (Fact.renumber ρ)).bind Fact.type? = (fact?.bind Fact.type?).map ρ := by
    intro fact?
    cases fact? <;> rfl
  simp only [joinFacts, hstate, htype, ← Option.map_or]
  split <;> rfl

theorem join_renumber (a b : Env) :
    (a.renumber ρ).join (b.renumber ρ) = (a.join b).renumber ρ := by
  have hheld := FinMap.merge_mapValues (Fact.renumber ρ) (g := joinFacts) (by rfl)
    (joinFacts_renumber ρ) a.held b.held
  have hattempts := FinMap.agreeing_mapValues _
    (List.map_injective_iff.2 (Attempt.renumber_injective ρ)) a.attempts b.attempts
  simp [join, renumber, hheld, hattempts]

/-- Changes one after the other: if each commutes with the renumbering, so do all of
them. -/
theorem foldl_renumber {α β : Type} {f : Env → α → Env} {f' : Env → β → Env} {g : α → β}
    (hf : ∀ env a, f' (env.renumber ρ) (g a) = (f env a).renumber ρ) (env : Env)
    (as : List α) :
    (as.map g).foldl f' (env.renumber ρ) = (as.foldl f env).renumber ρ := by
  induction as generalizing env with
  | nil => rfl
  | cons a as ih => rw [List.map_cons, List.foldl_cons, hf, ih, List.foldl_cons]

theorem refine_renumber (env : Env) (name : String) (truth : Bool) :
    (env.renumber ρ).refine name truth = (env.refine name truth).renumber ρ := by
  have hundecided :
      { env.renumber ρ with attempts := (env.renumber ρ).attempts.erase name } =
      ({ env with attempts := env.attempts.erase name } : Env).renumber ρ := by
    simp [renumber, FinMap.mapValues_erase]
  simp only [refine, hundecided, attemptsOf_renumber]
  rw [foldl_renumber ρ (f := fun env attempt =>
    env.set attempt.inst (attempt.outcome truth))]
  · rfl
  · intro env attempt
    exact set_renumber ρ env attempt.inst _

/-! ## Effects of calls -/

theorem release_renumber (env : Env) (inst : Instance) :
    (env.renumber ρ).release (inst.renumber ρ) = (env.release inst).renumber ρ := by
  have hreleased :
      (((env.renumber ρ).set (inst.renumber ρ) .notHeld).unassert inst.ref).forgetAttempts
          inst.ref
        = (((env.set inst .notHeld).unassert inst.ref).forgetAttempts
          inst.ref).renumber ρ := by
    rw [set_renumber, ← forgetAttempts_renumber]
    rfl
  have hcontains : (env.renumber ρ).held.contains inst.ref = env.held.contains inst.ref :=
    FinMap.contains_mapValues _ _ _
  simp only [release, Instance.ref_renumber, hreleased, hcontains]
  split
  · rfl
  · exact weaken_renumber ρ _ fun held => Instance.mayAlias_renumber ρ held inst

theorem releaseUnresolved_renumber (env : Env) (type? : Option CapId) :
    (env.renumber ρ).releaseUnresolved (type?.map ρ) =
      (env.releaseUnresolved type?).renumber ρ := by
  refine weaken_renumber ρ env fun held => ?_
  obtain ⟨ref, held⟩ := held
  cases type? <;> cases held <;> simp [Instance.renumber, beq_number]

theorem acquire_renumber (env : Env) (inst : Instance) (mode : Mode) :
    (env.renumber ρ).acquire (inst.renumber ρ) mode =
      (env.acquire inst mode).renumber ρ := by
  simp only [acquire, Instance.ref_renumber, set_renumber]
  rw [← forgetAttempts_renumber]
  rfl

theorem assert_renumber (env : Env) (inst : Instance) (mode : Mode) :
    (env.renumber ρ).assert (inst.renumber ρ) mode = (env.assert inst mode).renumber ρ := by
  simp only [assert, Instance.ref_renumber, state_renumber, set_renumber]
  split <;> rfl

theorem addAttempt_renumber (env : Env) (name : String) (attempt : Attempt) :
    (env.renumber ρ).addAttempt name (attempt.renumber ρ) =
      (env.addAttempt name attempt).renumber ρ := by
  simp only [addAttempt, attemptsOf_renumber]
  simp [renumber, FinMap.mapValues_insert]

theorem tryAcquire_renumber (env : Env) (inst : Instance) (mode : Mode) (success : Bool)
    (result : CallResult) :
    (env.renumber ρ).tryAcquire (inst.renumber ρ) mode success result =
      (env.tryAcquire inst mode success result).renumber ρ := by
  simp only [tryAcquire, Instance.ref_renumber, state_renumber, forgetAttempts_renumber,
    set_renumber]
  cases result.value? with
  | some value => by_cases h : value = success <;> simp [h]
  | none =>
    cases result.local? with
    | none => rfl
    | some name =>
      exact addAttempt_renumber ρ _ name ⟨inst, mode, success, env.state inst.ref⟩

theorem apply_renumber (env : Env) (contract : BoundContract) (result : CallResult) :
    (env.renumber ρ).apply (contract.renumber ρ) result =
      (env.apply contract result).renumber ρ := by
  simp only [apply, BoundContract.renumber]
  rw [foldl_renumber ρ fun env clause => release_renumber ρ env clause.inst,
    foldl_renumber ρ (releaseUnresolved_renumber ρ),
    foldl_renumber ρ fun env clause => acquire_renumber ρ env clause.inst clause.mode,
    foldl_renumber ρ fun env clause => assert_renumber ρ env clause.inst clause.mode,
    foldl_renumber ρ fun env attempt => tryAcquire_renumber ρ env attempt.clause.inst
      attempt.clause.mode attempt.success result]

/-! ## Obligations -/

@[simp] theorem checkRequired_renumber (env : Env) (callee : String)
    (clause : BoundClause) :
    (env.renumber ρ).checkRequired callee (clause.renumber ρ) =
      env.checkRequired callee clause := by
  simp [checkRequired, BoundClause.renumber]

@[simp] theorem checkExcluded_renumber (env : Env) (callee : String)
    (clause : BoundClause) :
    (env.renumber ρ).checkExcluded callee (clause.renumber ρ) =
      env.checkExcluded callee clause := by
  simp [checkExcluded, BoundClause.renumber]

@[simp] theorem checkReleased_renumber (env : Env) (callee : String)
    (clause : BoundClause) :
    (env.renumber ρ).checkReleased callee (clause.renumber ρ) =
      env.checkReleased callee clause := by
  simp [checkReleased, BoundClause.renumber]

@[simp] theorem checkAcquired_renumber (env : Env) (callee : String)
    (clause : BoundClause) :
    (env.renumber ρ).checkAcquired callee (clause.renumber ρ) =
      env.checkAcquired callee clause := by
  simp [checkAcquired, BoundClause.renumber]

theorem violations_renumber (env : Env) (contract : BoundContract) :
    (env.renumber ρ).violations (contract.renumber ρ) = env.violations contract := by
  simp [violations, BoundContract.renumber, List.filterMap_map]

end Env

end Custody
