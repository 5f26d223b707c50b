import Custody.Analysis.Basic
import Custody.Proofs.Env.Effects

/-!
# The old value of a destination

A call binds the clauses of its contract while the destination still has its old value.
Then the destination is rebound, and all that was reached through the old value is lost.
Then the clauses have their effects. So a clause that was bound through the old value
speaks of it once more: after `p = next(p)` the lock that `next` acquires is on record
as `*p`, which by now is another one.

`call_free_iff` says which clauses do this: acquisitions, assertions, try-acquires that
may have succeeded, and the capability whose address is returned. Releases do not.
`call_keeps_old_value` has examples.

## What counts as a claim

`Free` is what rebinding leaves behind: nothing reached through the local is held,
asserted, waited for or pointed to. An uncertain state is no claim. It says that nothing
is known, which is true of the new value as well.

## The two directions

That a call which takes nothing through the destination leaves it free goes through the
phases of the call one by one (`Free.apply`). For the converse it has to be seen that
what one clause takes no later phase gives up again, and `Free` is of no use there,
since it fails for many reasons. `Grips` is one of them that lasts: a hold, or an
attempt that waits. A later try-acquire turns the first into the second, which is why it
has to be either.
-/

set_option autoImplicit false

namespace Custody

namespace Env

/-- Nothing is claimed of what is reached through a local: no hold that is certain, no
assertion, no attempt, and no other local that would lead there. This is what `rebind`
leaves. -/
structure Free (env : Env) (name : String) : Prop where
  held : ∀ {ref : Ref}, ref.isRootedAt name = true → (env.state ref).mode? = none
  asserted : ∀ {ref : Ref}, ref.isRootedAt name = true → env.isAsserted ref = false
  attempts : ∀ {ref : Ref}, ref.isRootedAt name = true → ¬ env.Pending ref
  bindings : ∀ {other : String} {target : Ref}, env.bindings.get? other = some target →
    target.isRootedAt name = false

theorem free_rebind (env : Env) (name : String) : (env.rebind name).Free name where
  held {ref} href := by
    show ((env.weaken (·.ref.isRootedAt name)).state ref).mode? = none
    rw [state_weaken]
    by_cases htracked : env.held.contains ref = true
    · rw [if_pos ⟨htracked, href⟩]
      rfl
    · rw [if_neg fun h => htracked h.1, state_of_untracked (Bool.eq_false_iff.2 htracked)]
      rfl
  asserted {ref} href := by
    show ((env.asserted.filter fun ref _ => !ref.isRootedAt name).get? ref).isSome = false
    simp [FinMap.get?_filter, href]
  attempts {ref} href := by
    rintro ⟨other, attempt, hmem, rfl⟩
    rw [attemptsOf_rebind] at hmem
    split at hmem
    · cases hmem
    · simp [href] at hmem
  bindings {other target} htarget := by
    have htarget :
        ((env.bindings.erase name).filter
          fun _ target => !target.isRootedAt name).get? other = some target := htarget
    rw [FinMap.get?_filter, Option.filter_eq_some_iff] at htarget
    simpa using htarget.2

namespace Free

variable {env : Env} {name : String}

/-! ## What keeps an environment free -/

theorem set (h : env.Free name) {inst : Instance} {state : HeldState}
    (hstate : inst.ref.isRootedAt name = true → state.mode? = none) :
    (env.set inst state).Free name where
  held {ref} href := by
    rw [state_set]
    split
    · rename_i heq
      exact hstate (heq ▸ href)
    · exact h.held href
  asserted href := by
    rw [isAsserted, asserted_set]
    exact h.asserted href
  attempts href hpending := h.attempts href (by simpa using hpending)
  bindings htarget := by
    have hsame : (env.set inst state).bindings = env.bindings :=
      congrArg Prod.fst (steering_set env inst state)
    rw [hsame] at htarget
    exact h.bindings htarget

theorem forgetAttempts (h : env.Free name) (ref : Ref) :
    (env.forgetAttempts ref).Free name where
  held := h.held
  asserted := h.asserted
  attempts href hpending :=
    h.attempts href ((pending_forgetAttempts env ref _).1 hpending).2
  bindings := h.bindings

theorem unassert (h : env.Free name) (ref : Ref) : (env.unassert ref).Free name where
  held := h.held
  asserted {other} hother := by
    have hnone : (env.asserted.get? other).isSome = false := h.asserted hother
    show ((env.asserted.erase ref).get? other).isSome = false
    rw [FinMap.get?_erase]
    split
    · rfl
    · exact hnone
  attempts := h.attempts
  bindings := h.bindings

theorem weaken (h : env.Free name) (affected : Instance → Bool) :
    (env.weaken affected).Free name where
  held {ref} href := by
    rw [state_weaken]
    split
    · rfl
    · exact h.held href
  asserted := h.asserted
  attempts := h.attempts
  bindings := h.bindings

theorem addAttempt (h : env.Free name) {other : String} {new : Attempt}
    (hnew : new.inst.ref.isRootedAt name = false) :
    (env.addAttempt other new).Free name where
  held := h.held
  asserted := h.asserted
  attempts {ref} href hpending := by
    rcases (pending_addAttempt env other new ref).1 hpending with hpending | rfl
    · exact h.attempts href hpending
    · simp [hnew] at href
  bindings := h.bindings

theorem bind (h : env.Free name) {other : String} {target : Ref}
    (htarget : target.isRootedAt name = false) : (env.bind other target).Free name where
  held := h.held
  asserted := h.asserted
  attempts := h.attempts
  bindings {local' target'} hget := by
    have hget : (env.bindings.insert other target).get? local' = some target' := hget
    rw [FinMap.get?_insert] at hget
    split at hget
    · cases hget
      exact htarget
    · exact h.bindings hget

theorem release (h : env.Free name) (inst : Instance) : (env.release inst).Free name := by
  have hset : (env.set inst .notHeld).Free name := h.set fun _ => rfl
  have hreleased := (hset.unassert inst.ref).forgetAttempts inst.ref
  unfold Env.release
  split
  · exact hreleased
  · exact hreleased.weaken _

theorem acquire (h : env.Free name) {inst : Instance}
    (hinst : inst.ref.isRootedAt name = false) (mode : Mode) :
    (env.acquire inst mode).Free name := by
  refine ((h.set fun href => ?_).unassert inst.ref).forgetAttempts inst.ref
  simp [hinst] at href

theorem assert (h : env.Free name) {inst : Instance}
    (hinst : inst.ref.isRootedAt name = false) (mode : Mode) :
    (env.assert inst mode).Free name := by
  have hset : (env.set inst (.held mode)).Free name := h.set fun href => by
    simp [hinst] at href
  have hinsert : ∀ {held : Env}, held.Free name →
      Env.Free { held with asserted := held.asserted.insert inst.ref () } name := by
    intro held hheld
    refine ⟨hheld.held, fun {ref} href => ?_, hheld.attempts, hheld.bindings⟩
    have hnone : (held.asserted.get? ref).isSome = false := hheld.asserted href
    show ((held.asserted.insert inst.ref ()).get? ref).isSome = false
    rw [FinMap.get?_insert, if_neg]
    · exact hnone
    · rintro rfl
      simp [hinst] at href
  unfold Env.assert
  split
  · exact hinsert h
  · exact hinsert hset

/-- A try-acquire through the local is harmless only if it is known to have failed. If
nothing is known of its result, an attempt waits on what is reached through the
local. -/
theorem tryAcquire (h : env.Free name) {inst : Instance} {mode : Mode} {success : Bool}
    {result : CallResult}
    (hinst : inst.ref.isRootedAt name = true → result.value? = some (!success)) :
    (env.tryAcquire inst mode success result).Free name := by
  have hforget := h.forgetAttempts inst.ref
  unfold Env.tryAcquire
  split
  · rename_i value hvalue
    split
    · rename_i hsuccess
      refine hforget.set fun href => ?_
      have hfailed := hinst href
      rw [hvalue, hsuccess] at hfailed
      simp at hfailed
    · exact hforget
  · rename_i hvalue
    have hother : inst.ref.isRootedAt name = false := by
      by_contra hrooted
      have hfailed := hinst (by simpa using hrooted)
      rw [hvalue] at hfailed
      cases hfailed
    have hset : ((env.forgetAttempts inst.ref).set inst .unknown).Free name :=
      hforget.set fun _ => rfl
    split
    · exact hset.addAttempt hother
    · exact hset

end Free

/-! ## What keeps a claim on a capability -/

/-- A capability is held, or will be if an attempt on it turns out well whose result is
not known yet. Every phase of a call after the releases keeps this, as long as a result
that is not known goes to a local. -/
def Grips (env : Env) (result : CallResult) (ref : Ref) : Prop :=
  (env.state ref).mode? ≠ none ∨ (result.value? = none ∧ env.Pending ref)

section Grips

variable {env : Env} {result : CallResult} {ref : Ref} {name : String}

theorem Grips.not_free (h : env.Grips result ref) (href : ref.isRootedAt name = true) :
    ¬ env.Free name := by
  intro hfree
  rcases h with hheld | ⟨-, hpending⟩
  · exact hheld (hfree.held href)
  · exact hfree.attempts href hpending

theorem mode?_held (mode : Mode) : (HeldState.held mode).mode? ≠ none := by
  cases mode <;> decide

theorem grips_acquire (env : Env) (result : CallResult) (inst : Instance) (mode : Mode) :
    (env.acquire inst mode).Grips result inst.ref := by
  refine .inl ?_
  rw [state_acquire, if_pos rfl]
  exact mode?_held mode

theorem Grips.acquire (h : env.Grips result ref) (inst : Instance) (mode : Mode) :
    (env.acquire inst mode).Grips result ref := by
  by_cases href : ref = inst.ref
  · subst href
    exact grips_acquire env result inst mode
  · refine h.imp (fun hheld => ?_) fun ⟨hvalue, hpending⟩ => ⟨hvalue, ?_⟩
    · rwa [state_acquire, if_neg href]
    · exact (pending_forgetAttempts _ _ _).2 ⟨href, (pending_set env inst _ ref).2 hpending⟩

theorem grips_assert (env : Env) (result : CallResult) (inst : Instance) (mode : Mode) :
    (env.assert inst mode).Grips result inst.ref := by
  refine .inl ?_
  unfold assert
  split
  · rename_i hsatisfies
    intro hnone
    have hnone : (env.state inst.ref).mode? = none := hnone
    rw [HeldState.satisfies, hnone] at hsatisfies
    cases hsatisfies
  · show ((env.set inst (.held mode)).state inst.ref).mode? ≠ none
    rw [state_set, if_pos rfl]
    exact mode?_held mode

theorem Grips.assert (h : env.Grips result ref) (inst : Instance) (mode : Mode) :
    (env.assert inst mode).Grips result ref := by
  by_cases href : ref = inst.ref
  · subst href
    exact grips_assert env result inst mode
  · refine h.imp (fun hheld => ?_) fun ⟨hvalue, hpending⟩ => ⟨hvalue, ?_⟩
    · rwa [state_assert_of_ne href]
    · simpa [Pending] using hpending

/-- A try-acquire whose result goes to a local takes hold, unless it is known to have
failed. -/
theorem grips_tryAcquire (hlocal : result.local? = some name) {success : Bool}
    (hvalue : result.value? ≠ some (!success)) (env : Env) (inst : Instance) (mode : Mode) :
    (env.tryAcquire inst mode success result).Grips result inst.ref := by
  unfold tryAcquire
  split
  · rename_i value hsome
    have hsuccess : value = success := by
      by_contra hne
      exact hvalue (by rw [hsome, Bool.eq_not.2 hne])
    rw [if_pos hsuccess]
    refine .inl ?_
    rw [state_set, if_pos rfl]
    exact mode?_held mode
  · rename_i hnone
    rw [hlocal]
    exact .inr ⟨hnone, (pending_addAttempt _ _ _ _).2 (.inr rfl)⟩

theorem Grips.tryAcquire (h : env.Grips result ref) (hlocal : result.local? = some name)
    (inst : Instance) (mode : Mode) (success : Bool) :
    (env.tryAcquire inst mode success result).Grips result ref := by
  by_cases hfailed : result.value? = some (!success)
  · -- It is known to have failed, and nothing happens to what is held.
    have hheld : (env.state ref).mode? ≠ none := h.resolve_right fun ⟨hnone, _⟩ => by
      simp [hnone] at hfailed
    refine .inl ?_
    unfold Env.tryAcquire
    simpa [hfailed] using hheld
  · by_cases href : ref = inst.ref
    · subst href
      exact grips_tryAcquire hlocal hfailed env inst mode
    · unfold Env.tryAcquire
      cases hvalue : result.value? with
      | some value =>
        have hheld : (env.state ref).mode? ≠ none :=
          h.resolve_right fun ⟨hnone, _⟩ => by simp [hnone] at hvalue
        refine .inl ?_
        simp only []
        split
        · simpa [href] using hheld
        · exact hheld
      | none =>
        rw [hlocal]
        refine h.imp (fun hheld => ?_) fun ⟨_, hpending⟩ => ⟨hvalue, ?_⟩
        · show (((env.forgetAttempts inst.ref).set inst .unknown).state ref).mode? ≠ none
          simpa [href] using hheld
        · simp [href, hpending]

theorem Grips.foldl {α : Type} {f : Env → α → Env} (h : env.Grips result ref)
    (hkeep : ∀ env x, env.Grips result ref → (f env x).Grips result ref) (list : List α) :
    (list.foldl f env).Grips result ref :=
  List.foldlRecOn (motive := (Env.Grips · result ref)) list f h fun env henv x _ =>
    hkeep env x henv

theorem grips_foldl {α : Type} {f : Env → α → Env} {list : List α} {x : α} (hmem : x ∈ list)
    (hx : ∀ env, (f env x).Grips result ref)
    (hkeep : ∀ env x, env.Grips result ref → (f env x).Grips result ref) (env : Env) :
    (list.foldl f env).Grips result ref := by
  obtain ⟨before, after, rfl⟩ := List.append_of_mem hmem
  rw [List.foldl_append, List.foldl_cons]
  exact (hx _).foldl hkeep after

end Grips

end Env

/-- What a call takes hold of: what it acquires or asserts, and what it tries to acquire
unless that is known to have failed. -/
inductive BoundContract.Takes (contract : BoundContract) (result : CallResult) :
    Ref → Prop where
  | acquired {clause : BoundClause} (hmem : clause ∈ contract.acquires) :
      Takes contract result clause.inst.ref
  | asserted {clause : BoundClause} (hmem : clause ∈ contract.asserts) :
      Takes contract result clause.inst.ref
  | tried {attempt : BoundAttempt} (hmem : attempt ∈ contract.tryAcquires)
      (hvalue : result.value? ≠ some (!attempt.success)) :
        Takes contract result attempt.clause.inst.ref

namespace Env

variable {contract : BoundContract} {result : CallResult} {name : String}

theorem Free.apply {env : Env} (h : env.Free name)
    (htakes : ∀ ref, contract.Takes result ref → ref.isRootedAt name = false) :
    (env.apply contract result).Free name := by
  have hreleases := List.foldlRecOn (motive := (Env.Free · name)) contract.releases
    (fun env clause => env.release clause.inst) h
    fun env henv clause _ => henv.release clause.inst
  have hunresolved :=
    List.foldlRecOn (motive := (Env.Free · name)) contract.unresolvedReleases
    releaseUnresolved hreleases fun env henv type? _ => henv.weaken _
  have hacquires := List.foldlRecOn (motive := (Env.Free · name)) contract.acquires
    (fun env clause => env.acquire clause.inst clause.mode) hunresolved
    fun env henv clause hmem => henv.acquire (htakes _ (.acquired hmem)) clause.mode
  have hasserts := List.foldlRecOn (motive := (Env.Free · name)) contract.asserts
    (fun env clause => env.assert clause.inst clause.mode) hacquires
    fun env henv clause hmem => henv.assert (htakes _ (.asserted hmem)) clause.mode
  refine List.foldlRecOn (motive := (Env.Free · name)) contract.tryAcquires _ hasserts
    fun env henv attempt hmem => henv.tryAcquire fun href => ?_
  by_contra hvalue
  simp [htakes _ (.tried hmem hvalue)] at href

theorem grips_apply (hlocal : result.local? = some name) {ref : Ref}
    (h : contract.Takes result ref) (env : Env) :
    (env.apply contract result).Grips result ref := by
  have hacquire : ∀ (env : Env) (clause : BoundClause), env.Grips result ref →
      (env.acquire clause.inst clause.mode).Grips result ref :=
    fun env clause henv => henv.acquire clause.inst clause.mode
  have hassert : ∀ (env : Env) (clause : BoundClause), env.Grips result ref →
      (env.assert clause.inst clause.mode).Grips result ref :=
    fun env clause henv => henv.assert clause.inst clause.mode
  have htry : ∀ (env : Env) (attempt : BoundAttempt), env.Grips result ref → (env.tryAcquire
      attempt.clause.inst attempt.clause.mode attempt.success result).Grips result ref :=
    fun env attempt henv =>
      henv.tryAcquire hlocal attempt.clause.inst attempt.clause.mode attempt.success
  unfold apply
  -- The clause that takes the capability is somewhere in its list, and all clauses
  -- after it let it be.
  cases h with
  | @acquired clause hmem =>
    refine Grips.foldl (Grips.foldl ?_ hassert _) htry _
    refine grips_foldl hmem (fun env => ?_) hacquire _
    exact grips_acquire env result clause.inst clause.mode
  | @asserted clause hmem =>
    refine Grips.foldl ?_ htry _
    refine grips_foldl hmem (fun env => ?_) hassert _
    exact grips_assert env result clause.inst clause.mode
  | @tried attempt hmem hvalue =>
    refine grips_foldl hmem (fun env => ?_) htry _
    exact grips_tryAcquire hlocal hvalue env attempt.clause.inst attempt.clause.mode

end Env

namespace Context

/-- The contract of a call, bound while the destination has its old value. Calls of
intrinsics and of functions come together here, and their effects are the same from here
on. -/
def callContract (ctx : Context) (env : Env) (callee : String) (args : List String) :
    BoundContract :=
  match Intrinsic.ofName? callee with
  | some intrinsic =>
    intrinsicContract callee args (args.head?.bind (ctx.instance? env)) intrinsic
  | none => ctx.boundContract env callee args

def callResult (ctx : Context) (env : Env) (callee : String) (args : List String)
    (dest : Option String) : CallResult :=
  match Intrinsic.ofName? callee with
  | some intrinsic =>
    intrinsicResult env args dest (args.head?.bind (ctx.instance? env)) intrinsic
  | none => { local? := dest }

theorem call_eq_finishCall (ctx : Context) (env : Env) (callee : String)
    (args : List String) (dest : Option String) :
    (ctx.call env callee args dest).1
      = finishCall env (ctx.callContract env callee args)
        (ctx.callResult env callee args dest) dest := by
  unfold call callContract callResult
  cases Intrinsic.ofName? callee <;> rfl

theorem local?_callResult (ctx : Context) (env : Env) (callee : String) (args : List String)
    (name : String) : (ctx.callResult env callee args (some name)).local? = some name := by
  unfold callResult
  split
  · unfold intrinsicResult
    split
    · split <;> rfl
    · rfl
  · rfl

theorem finishCall_of_returns_eq_none {contract : BoundContract}
    (h : contract.returns = none) (env : Env) (result : CallResult) (name : String) :
    finishCall env contract result (some name) =
      (env.rebind name).apply contract result := by
  simp [finishCall, h]

theorem finishCall_of_returns {contract : BoundContract} {clause : BoundClause}
    (h : contract.returns = some clause) (env : Env) (result : CallResult) (name : String) :
    finishCall env contract result (some name)
      = ((env.rebind name).apply contract result).bind name clause.inst.ref := by
  simp [finishCall, h]

/-- What a call takes hold of stays so when the destination is said to point
somewhere. -/
theorem grips_finishCall {contract : BoundContract} {result : CallResult}
    {name : String} {ref : Ref} (hlocal : result.local? = some name)
    (h : contract.Takes result ref) (env : Env) :
    (finishCall env contract result (some name)).Grips result ref := by
  have hgrips := Env.grips_apply hlocal h (env.rebind name)
  cases hreturns : contract.returns with
  | none =>
    rw [finishCall_of_returns_eq_none hreturns]
    exact hgrips
  | some clause =>
    rw [finishCall_of_returns hreturns]
    exact hgrips

/-- **When a call leaves no claim on the old value of its destination**: exactly if
nothing that it takes hold of, or whose address it returns, is reached through the
destination. -/
theorem call_free_iff (ctx : Context) (env : Env) (callee : String) (args : List String)
    (name : String) :
    (ctx.call env callee args (some name)).1.Free name ↔
      (∀ ref, (ctx.callContract env callee args).Takes
        (ctx.callResult env callee args (some name)) ref →
        ref.isRootedAt name = false) ∧
      ∀ clause, (ctx.callContract env callee args).returns = some clause →
        clause.inst.ref.isRootedAt name = false := by
  rw [call_eq_finishCall]
  constructor
  · intro hfree
    constructor
    · intro ref htakes
      by_contra hrooted
      have hgrips :=
        grips_finishCall (ctx.local?_callResult env callee args name) htakes env
      exact hgrips.not_free (by simpa using hrooted) hfree
    · intro clause hreturns
      rw [finishCall_of_returns hreturns] at hfree
      apply hfree.bindings
      show (FinMap.insert _ name clause.inst.ref).get? name = some clause.inst.ref
      simp
  · -- `rebind` has freed the local, and neither the effects nor the binding of what is
    -- returned put anything back.
    rintro ⟨htakes, hreturns⟩
    have hafter := (env.free_rebind name).apply htakes
    cases hclause : (ctx.callContract env callee args).returns with
    | none =>
      rw [finishCall_of_returns_eq_none hclause]
      exact hafter
    | some clause =>
      rw [finishCall_of_returns hclause]
      exact hafter.bind (hreturns clause hclause)

/-- A function that acquires the lock it is given a pointer to and one that returns the
pointer. -/
def relayTable : Table :=
  { (default : Table) with
    contracts := ⟨FinMap.ofList
      [("next", { acquires := [⟨.deref (.param 0), ⟨0⟩, .exclusive, "__acquires(l)"⟩] }),
        ("same", { returns := some ⟨.deref (.param 0), ⟨0⟩, .exclusive, "__returns_cap(l)"⟩ })],
      ∅⟩ }

def relayDecl : FunctionDecl :=
  { (default : FunctionDecl) with name := "probe", params := [⟨"p", "spinlock_t *"⟩] }

/-- **Claims on an old value.** In each of these calls `p` gets a new value, and what it
pointed to before is held, asserted, attempted or pointed to under the name of what it
points to now. So the lock that is released after `p = next(p)` counts as the one that
was acquired. -/
theorem call_keeps_old_value :
    let ctx := ofDecl relayTable "unit" relayDecl
    (ctx.call .empty "next" ["p"] (some "p")).1.state (.deref (.var "p")) = .heldExclusive ∧
      (ctx.call .empty "__assert_cap" ["p"] (some "p")).1.isAsserted
        (.deref (.var "p")) = true ∧
      (ctx.call .empty "__cond_acquire" ["p"] (some "p")).1.attemptsOf "p"
        = [⟨⟨.deref (.var "p"), none⟩, .exclusive, true, .notHeld⟩] ∧
      (ctx.call .empty "same" ["p"] (some "p")).1.bindings.get? "p" =
        some (.deref (.var "p")) ∧
      ctx.analyze ⟨0, [⟨[.simple none (.call "next" ["p"] (some "p")),
        .simple none (.call "__release" ["p"] none)], .leave none⟩]⟩ = .ok ⟨[], 1, 1⟩ := by
  decide +kernel

end Context

end Custody
