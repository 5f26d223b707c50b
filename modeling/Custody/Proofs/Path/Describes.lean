import Custody.Proofs.Analysis.Steering
import Custody.Proofs.Env.Queries
import Custody.Proofs.Path.Interpreter

/-!
# Environments that tell the truth

`env.Describes store` says that all an environment claims is so in a store: the states
that are not unknown, the truth values of locals, and, for every attempt that waits,
what the state is once the local with its result has been tested. This is the invariant
that ties the three together: a test turns an attempt into a state, and it may only do
so because the attempt was right about the store all along.

Every effect keeps it, if the store has the effect too. So do a test of a local
(`Describes.refine`) and going up in the order (`Describes.of_covers`), which is all
that joins do.

## What is said of attempts

An attempt that waits is a claim about the future: if the local is tested, and found
true or false, then this is the state. At the moment at which the invariant is stated
the store has the value of the local already, so the claim can be made about the
present: what the attempt gives for the value that the local *has* is allowed for by the
state that the capability *has*. The other outcome is not claimed to be possible.

## What is left out

Assertions, bindings and regions are required to be absent (`asserted`, `steering`). An
assertion is a claim that nothing has to make true, and with bindings a reference would
not mean the same to the environment and to the store. That is the price of a plain
store, and `IsPlain` is what makes it hold.
-/

set_option autoImplicit false

namespace Custody

/-- What is known of a capability allows for the state it has. `notHeld` is knowledge as
well: it does not allow for a hold. -/
def HeldState.Allows (known actual : HeldState) : Prop := known = .unknown ∨ known = actual

namespace Store

@[simp] theorem state_release (store : Store) (ref other : Ref) :
    (store.release ref).state other = if other = ref then .notHeld
      else store.state other := by
  unfold state release
  by_cases h : other = ref <;> simp [h]

@[simp] theorem state_acquire (store : Store) (ref other : Ref) (mode : Mode) :
    (store.acquire ref mode).state other = if other = ref then .held mode
      else store.state other := by
  unfold state acquire
  by_cases h : other = ref <;> simp [h]

@[simp] theorem truth_tryAcquire (store : Store) (attempt : BoundAttempt) (result : Bool) :
    (store.tryAcquire attempt result).truth = store.truth := by
  unfold tryAcquire
  split <;> rfl

theorem state_tryAcquire_of_ne (store : Store) (attempt : BoundAttempt) (result : Bool)
    {other : Ref} (hne : other ≠ attempt.clause.inst.ref) :
    (store.tryAcquire attempt result).state other = store.state other := by
  unfold tryAcquire
  split
  · rw [state_acquire, if_neg hne]
  · rfl

end Store

namespace Env

/-- All that an environment claims is so in a store. Nothing in it is only asserted, no
local points anywhere, and checks are on. -/
structure Describes (env : Env) (store : Store) : Prop where
  state : ∀ ref, (env.state ref).Allows (store.state ref)
  constants : ∀ {name value}, env.constants.get? name = some value →
    store.truth name = value
  attempts : ∀ {name attempt}, attempt ∈ env.attemptsOf name →
    (attempt.outcome (store.truth name)).Allows (store.state attempt.inst.ref)
  asserted : env.asserted = ∅
  steering : env.steering = Env.empty.steering

theorem describes_empty (truth : String → Bool) :
    Env.empty.Describes ⟨fun _ => none, truth⟩ where
  state _ := .inr rfl
  constants h := by cases h
  attempts h := by cases h
  asserted := rfl
  steering := rfl

namespace Describes

variable {env after : Env} {store later : Store}

/-- A change that concerns one capability. Attempts that are left are about others, or
right about this one. Releases, acquisitions and try-acquires are all of this kind, and
the states of other capabilities may become unknown on the way. -/
theorem change {ref : Ref} (h : env.Describes store) (htruth : later.truth = store.truth)
    (hself : (after.state ref).Allows (later.state ref))
    (hactual : ∀ other, other ≠ ref → later.state other = store.state other)
    (hknown : ∀ other, other ≠ ref →
      after.state other = env.state other ∨ after.state other = .unknown)
    (hconstants : after.constants = env.constants)
    (hattempts : ∀ {name attempt}, attempt ∈ after.attemptsOf name →
      (attempt ∈ env.attemptsOf name ∧ attempt.inst.ref ≠ ref) ∨
        (attempt.outcome (store.truth name)).Allows (later.state attempt.inst.ref))
    (hasserted : after.asserted = ∅) (hsteering : after.steering = env.steering) :
    after.Describes later where
  state other := by
    by_cases heq : other = ref
    · rw [heq]
      exact hself
    · rw [hactual other heq]
      rcases hknown other heq with hsame | hunknown
      · rw [hsame]
        exact h.state other
      · exact .inl hunknown
  constants hget := by
    rw [hconstants] at hget
    rw [htruth]
    exact h.constants hget
  attempts hmem := by
    rw [htruth]
    rcases hattempts hmem with ⟨hold, hne⟩ | hnew
    · rw [hactual _ hne]
      exact h.attempts hold
    · exact hnew
  asserted := hasserted
  steering := hsteering.trans h.steering

/-!
## Effects

Each effect beside its counterpart on stores. An environment may be less certain than
the store after it, as a release that may have hit an alias makes it.
-/

theorem update (h : env.Describes store) {inst : Instance} {state : HeldState}
    (hnone : ∀ {name attempt}, attempt ∈ env.attemptsOf name → attempt.inst.ref ≠ inst.ref)
    (htruth : later.truth = store.truth) (hself : state.Allows (later.state inst.ref))
    (hactual : ∀ other, other ≠ inst.ref → later.state other = store.state other) :
    (env.set inst state).Describes later := by
  refine h.change htruth ?_ hactual (fun other hne => .inl ?_)
    (constants_set env inst state) (fun hmem => .inl ?_)
    ((asserted_set env inst state).trans h.asserted) (steering_set env inst state)
  · rw [state_set, if_pos rfl]
    exact hself
  · rw [state_set, if_neg hne]
  · rw [attemptsOf_set] at hmem
    exact ⟨hmem, hnone hmem⟩

/-- A state that the store has. What waits for the capability was right before and still
is. -/
theorem set (h : env.Describes store) {inst : Instance} {state : HeldState}
    (hstate : state.Allows (store.state inst.ref)) :
    (env.set inst state).Describes store where
  state ref := by
    rw [state_set]
    split
    · rename_i heq
      rw [heq]
      exact hstate
    · exact h.state ref
  constants hget := by
    rw [constants_set] at hget
    exact h.constants hget
  attempts hmem := by
    rw [attemptsOf_set] at hmem
    exact h.attempts hmem
  asserted := (asserted_set env inst state).trans h.asserted
  steering := (steering_set env inst state).trans h.steering

theorem release (h : env.Describes store) (inst : Instance) :
    (env.release inst).Describes (store.release inst.ref) := by
  have hparts : (env.release inst).constants = env.constants ∧
      (env.release inst).asserted = ∅ := by
    have hunassert : (env.set inst .notHeld).asserted.erase inst.ref = ∅ := by
      rw [asserted_set, h.asserted, FinMap.erase_empty]
    unfold Env.release
    split
    · exact ⟨constants_set env inst _, hunassert⟩
    · exact ⟨constants_set env inst _, hunassert⟩
  refine h.change rfl (.inr ?_) (fun other hne => ?_) (fun other hne => ?_) hparts.1
    (fun hmem => .inl (mem_attemptsOf_release hmem)) hparts.2 (steering_release env inst)
  · rw [state_release_self, Store.state_release, if_pos rfl]
  · rw [Store.state_release, if_neg hne]
  · exact state_release_cases env inst hne

theorem acquire (h : env.Describes store) (inst : Instance) (mode : Mode) :
    (env.acquire inst mode).Describes (store.acquire inst.ref mode) := by
  have hasserted : (env.acquire inst mode).asserted = ∅ := by
    show (env.set inst (.held mode)).asserted.erase inst.ref = ∅
    rw [asserted_set, h.asserted, FinMap.erase_empty]
  refine h.change rfl (.inr ?_) (fun other hne => ?_) (fun other hne => .inl ?_)
    (constants_set env inst _) (fun hmem => .inl (mem_attemptsOf_acquire hmem)) hasserted
    (steering_acquire env inst mode)
  · rw [Env.state_acquire, Store.state_acquire, if_pos rfl, if_pos rfl]
  · rw [Store.state_acquire, if_neg hne]
  · rw [Env.state_acquire, if_neg hne]

theorem weaken (h : env.Describes store) (affected : Instance → Bool) :
    (env.weaken affected).Describes store where
  state ref := by
    rcases env.state_weaken_cases affected ref with hsame | hunknown
    · rw [hsame]
      exact h.state ref
    · exact .inl hunknown
  constants := h.constants
  attempts := h.attempts
  asserted := h.asserted
  steering := h.steering

theorem forgetAttempts (h : env.Describes store) (ref : Ref) :
    (env.forgetAttempts ref).Describes store :=
  ⟨h.state, h.constants, fun hmem => h.attempts (mem_attemptsOf_forgetAttempts hmem).1,
    h.asserted, h.steering⟩

/-- A try-acquire, of which the environment may know the result, or the local that has
it, or neither. -/
theorem tryAcquire (h : env.Describes store) (attempt : BoundAttempt)
    {known : CallResult} {result : Bool}
    (hvalue : ∀ value, known.value? = some value → value = result)
    (hlocal : ∀ name, known.local? = some name → store.truth name = result) :
    (env.tryAcquire attempt.clause.inst attempt.clause.mode attempt.success known).Describes
      (store.tryAcquire attempt result) := by
  have hforget := h.forgetAttempts attempt.clause.inst.ref
  have hnone : ∀ {name waiting},
      waiting ∈ (env.forgetAttempts attempt.clause.inst.ref).attemptsOf name →
      waiting.inst.ref ≠ attempt.clause.inst.ref :=
    fun hmem => (mem_attemptsOf_forgetAttempts hmem).2
  have htruth := store.truth_tryAcquire attempt result
  have hother : ∀ other, other ≠ attempt.clause.inst.ref →
      (store.tryAcquire attempt result).state other = store.state other :=
    fun _ hne => store.state_tryAcquire_of_ne attempt result hne
  cases hknown : known.value? with
  | some value =>
    simp only [Env.tryAcquire, hknown]
    rw [hvalue value hknown]
    by_cases hsuccess : result = attempt.success
    · rw [if_pos hsuccess]
      refine hforget.update hnone htruth (.inr ?_) hother
      rw [Store.tryAcquire, if_pos hsuccess, Store.state_acquire, if_pos rfl]
    · rw [if_neg hsuccess, Store.tryAcquire, if_neg hsuccess]
      exact hforget
  | none =>
    have hunknown :
        ((env.forgetAttempts attempt.clause.inst.ref).set attempt.clause.inst
          .unknown).Describes (store.tryAcquire attempt result) :=
      hforget.update hnone htruth (.inl rfl) hother
    simp only [Env.tryAcquire, hknown]
    cases hname : known.local? with
    | none => exact hunknown
    | some name =>
      refine ⟨hunknown.state, hunknown.constants, fun {other waiting} hmem => ?_,
        hunknown.asserted, hunknown.steering⟩
      rcases mem_attemptsOf_addAttempt hmem with hold | ⟨rfl, rfl⟩
      · exact hunknown.attempts hold
      · -- The new attempt: either way of the test leads to the state the store has.
        rw [htruth, hlocal other hname]
        unfold Attempt.outcome
        by_cases hsuccess : attempt.success = result
        · simp only [if_pos hsuccess]
          rw [Store.tryAcquire, if_pos hsuccess.symm, Store.state_acquire, if_pos rfl]
          exact .inr rfl
        · simp only [if_neg hsuccess]
          rw [Store.tryAcquire, if_neg fun heq => hsuccess heq.symm]
          exact h.state _

theorem foldl {α : Type} {f : Env → α → Env} {g : Store → α → Store} {list : List α}
    (htruth : ∀ store x, (g store x).truth = store.truth) (h : env.Describes store)
    (hstep : ∀ env' store', store'.truth = store.truth → env'.Describes store' →
      ∀ x ∈ list, (f env' x).Describes (g store' x)) :
    (list.foldl f env).Describes (list.foldl g store) ∧
      (list.foldl g store).truth = store.truth := by
  induction list generalizing env store with
  | nil => exact ⟨h, rfl⟩
  | cons x rest ih =>
    have hx := hstep env store rfl h x List.mem_cons_self
    obtain ⟨hrest, hsame⟩ := ih hx fun env' store' hsame henv' y hy =>
      hstep env' store' (hsame.trans (htruth store x)) henv' y (List.mem_cons_of_mem _ hy)
    exact ⟨hrest, hsame.trans (htruth store x)⟩

/-- **A call has the effects its contract states.** What the environment knows of the
result has to be so. Contracts that assert are left out, since they claim a hold that
nobody took. -/
theorem apply (h : env.Describes store) {contract : BoundContract}
    (hasserts : contract.asserts = []) {known : CallResult} {result : Bool}
    (hvalue : ∀ value, known.value? = some value → value = result)
    (hlocal : ∀ name, known.local? = some name → store.truth name = result) :
    (env.apply contract known).Describes (store.apply contract result) := by
  -- Releases that could not be bound do nothing to the store: they happened to
  -- something that the clauses do not name, and the environment only becomes less
  -- certain.
  have hweaken : ∀ (types : List (Option CapId)) {env : Env} {store : Store},
      env.Describes store →
      (types.foldl releaseUnresolved env).Describes store := by
    intro types
    induction types with
    | nil => exact fun h => h
    | cons type rest ih => exact fun h => ih (h.weaken _)
  unfold Env.apply Store.apply
  rw [hasserts]
  obtain ⟨hreleased, hsame⟩ :
      (contract.releases.foldl
          (fun (env : Env) clause => env.release clause.inst) env).Describes
        (contract.releases.foldl
          (fun (store : Store) clause => store.release clause.inst.ref) store) ∧ _ :=
    h.foldl (fun _ _ => rfl) fun _ _ _ henv clause _ => henv.release clause.inst
  obtain ⟨hacquired, hsame'⟩ :
      (contract.acquires.foldl (fun (env : Env) clause =>
        env.acquire clause.inst clause.mode)
          _).Describes
        (contract.acquires.foldl (fun (store : Store) clause =>
          store.acquire clause.inst.ref clause.mode) _) ∧ _ :=
    (hweaken contract.unresolvedReleases hreleased).foldl (fun _ _ => rfl)
      fun _ _ _ henv clause _ => henv.acquire clause.inst clause.mode
  have htry := fun (store : Store) attempt => store.truth_tryAcquire attempt result
  refine (hacquired.foldl htry fun env' store' hsame'' henv' attempt _ => ?_).1
  refine henv'.tryAcquire attempt hvalue fun name hname => ?_
  rw [hsame'', hsame', hsame]
  exact hlocal name hname

/-! ## Variables -/

/-- Whatever a variable is assigned, all that was claimed through its old value is
gone. -/
theorem rebind (h : env.Describes store) (name : String) (value : Bool) :
    (env.rebind name).Describes (store.assign name value) where
  state ref := (h.weaken (·.ref.isRootedAt name)).state ref
  constants := by
    intro other known hget
    have hget : (env.constants.erase name).get? other = some known := hget
    rw [FinMap.get?_erase] at hget
    split at hget
    · cases hget
    · rename_i hne
      show (if other = name then value else store.truth other) = known
      rw [if_neg hne]
      exact h.constants hget
  attempts := by
    intro other attempt hmem
    obtain ⟨hmem, hne⟩ := mem_attemptsOf_rebind hmem
    have htruth : (store.assign name value).truth other = store.truth other := if_neg hne
    rw [htruth]
    exact h.attempts hmem
  asserted := by
    show (env.asserted.filter fun ref _ => !ref.isRootedAt name) = ∅
    rw [h.asserted]
    rfl
  steering := by
    have hrebind := steering_rebind_congr name h.steering
    rw [hrebind]
    rfl

theorem setConstant (h : env.Describes store) {name : String} {value : Bool}
    (hvalue : store.truth name = value) : (env.setConstant name value).Describes store where
  state := h.state
  constants := by
    intro other known hget
    have hget : (env.constants.insert name value).get? other = some known := hget
    rw [FinMap.get?_insert] at hget
    split at hget
    · rename_i heq
      cases hget
      rw [heq]
      exact hvalue
    · exact h.constants hget
  attempts := h.attempts
  asserted := h.asserted
  steering := h.steering

/-- A variable that is the same as another waits for the same attempts. Whichever of the
two is tested decides them alike. -/
theorem copyLocal (h : env.Describes store) {target source : String}
    (hsame : store.truth target = store.truth source) :
    (env.copyLocal target source).Describes store where
  state := h.state
  constants := by
    intro name value hget
    rcases get?_copyEntry hget with hold | ⟨rfl, hsource⟩
    · exact h.constants hold
    · rw [hsame]
      exact h.constants hsource
  attempts := by
    intro name attempt hmem
    obtain ⟨list, hlist, hin⟩ := mem_attemptsOf.1 hmem
    rcases get?_copyEntry hlist with hold | ⟨rfl, hsource⟩
    · exact h.attempts (mem_attemptsOf.2 ⟨list, hold, hin⟩)
    · rw [hsame]
      exact h.attempts (mem_attemptsOf.2 ⟨list, hsource, hin⟩)
  asserted := h.asserted
  steering := (steering_copyLocal_congr target source h.steering).trans rfl

/-! ## Tests and merges -/

/-- **A test that comes out as the variable is tells nothing wrong.** The attempts on it
were right about this outcome, and become states. -/
theorem refine (h : env.Describes store) {name : String} {truth : Bool}
    (htruth : store.truth name = truth) : (env.refine name truth).Describes store := by
  have herase :
      ({ env with attempts := env.attempts.erase name } : Env).Describes store := by
    refine ⟨h.state, h.constants, fun {other attempt} hmem => ?_, h.asserted, h.steering⟩
    obtain ⟨list, hlist, hmem⟩ := mem_attemptsOf.1 hmem
    exact h.attempts (mem_attemptsOf.2 ⟨list, FinMap.erase_within _ _ _ _ hlist, hmem⟩)
  -- Each attempt that is decided sets a state that it was right about before.
  have hall : ∀ (list : List Attempt), (∀ attempt ∈ list, attempt ∈ env.attemptsOf name) →
      ∀ {env' : Env}, env'.Describes store →
        (list.foldl (fun env attempt => env.set attempt.inst (attempt.outcome truth))
          env').Describes store := by
    intro list
    induction list with
    | nil => exact fun _ _ henv' => henv'
    | cons attempt rest ih =>
      intro hmem env' henv'
      refine ih (fun other hother => hmem other (List.mem_cons_of_mem _ hother)) ?_
      have hright := h.attempts (hmem attempt List.mem_cons_self)
      rw [htruth] at hright
      exact henv'.set hright
  exact (hall _ (fun _ hmem => hmem) herase).setConstant htruth

/-- **An environment that claims less is right too.** States that are the same or
unknown, and fewer truths and attempts, are what `Covers` allows. -/
theorem of_covers (h : env.Describes store) (hcovers : after.Covers env) :
    after.Describes store where
  state ref := by
    rcases hcovers.state ref with hsame | hunknown
    · rw [hsame]
      exact h.state ref
    · exact .inl hunknown
  constants hget := h.constants (hcovers.constants _ _ hget)
  attempts hmem := by
    obtain ⟨list, hlist, hmem⟩ := mem_attemptsOf.1 hmem
    exact h.attempts (mem_attemptsOf.2 ⟨list, hcovers.attempts _ _ hlist, hmem⟩)
  asserted := by
    have hwithin := hcovers.asserted
    rw [h.asserted] at hwithin
    exact hwithin.eq_empty
  steering := by
    have hwithin := hcovers.bindings
    have hle := hcovers.suppression
    rw [show env.bindings = ∅ from congrArg Prod.fst h.steering] at hwithin
    rw [show env.suppression = 0 from congrArg Prod.snd h.steering] at hle
    exact Prod.ext hwithin.eq_empty (Nat.le_zero.1 hle)

end Describes

end Env

end Custody
