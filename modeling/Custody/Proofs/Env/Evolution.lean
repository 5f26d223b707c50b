import Custody.Env.Effects
import Custody.Proofs.Env.Order
import Mathlib.Data.Set.Insert
import Mathlib.Data.Finset.Basic

/-!
# What a change can do to an environment

The iteration over a body never looks at *how* a block changes an environment. It needs
two facts: environments stay canonical, and a change only ever speaks of references that
the environment spoke of before or that the change itself names. `Evolves named a b` is
the two together. It is reflexive and transitive (`Evolves.refl`, `Evolves.trans`), so
what is proved here for single changes carries over to calls, statements and blocks
without another look at the maps.

`named` is a set and not a finite one. A set can be read off from a contract as it
stands (`evolves_apply`); that it is finite only matters when all blocks are taken
together, and is added there (`Proofs/Analysis/Steering`).

Bindings and the number of open regions are not part of it. They are what decides which
references a block names (`steering`), so they have to be known exactly: the equations
are in the last section.
-/

set_option autoImplicit false

namespace Custody

namespace Env

/-! ## References an environment speaks of -/

/-- A reference has a state, or an attempt on it waits. Assertions are left out, since a
join can only take them away. -/
def Mentions (env : Env) (ref : Ref) : Prop :=
  (∃ fact, env.held.get? ref = some fact) ∨
    ∃ name list, env.attempts.get? name = some list ∧
      ∃ attempt ∈ list, attempt.inst.ref = ref

/-- From `a` to `b` canonical environments stay canonical, and `b` speaks only of what
`a` speaks of and of what is named. -/
structure Evolves (named : Set Ref) (a b : Env) : Prop where
  canonical : a.Canonical → b.Canonical
  mentions : ∀ ref, b.Mentions ref → a.Mentions ref ∨ ref ∈ named

theorem Evolves.refl {named : Set Ref} (env : Env) : Evolves named env env :=
  ⟨id, fun _ h => .inl h⟩

theorem Evolves.trans {named : Set Ref} {a b c : Env} (hab : Evolves named a b)
    (hbc : Evolves named b c) : Evolves named a c where
  canonical h := hbc.canonical (hab.canonical h)
  mentions ref h := by
    rcases hbc.mentions ref h with h | h
    · exact hab.mentions ref h
    · exact .inr h

theorem Evolves.mono {named named' : Set Ref} {a b : Env} (hsub : named ⊆ named')
    (h : Evolves named a b) : Evolves named' a b :=
  ⟨h.canonical, fun ref href => (h.mentions ref href).imp_right fun hn => hsub hn⟩

theorem Evolves.foldl {α : Type} {named : Set Ref} {f : Env → α → Env} {list : List α}
    (h : ∀ env, ∀ x ∈ list, Evolves named env (f env x)) (env : Env) :
    Evolves named env (list.foldl f env) := by
  induction list generalizing env with
  | nil => exact .refl env
  | cons x rest ih =>
    exact (h env x List.mem_cons_self).trans
      (ih (fun env y hy => h env y (List.mem_cons_of_mem _ hy)) (f env x))

theorem Evolves.of_eq {named : Set Ref} {a b : Env} (hheld : b.held = a.held)
    (hattempts : b.attempts = a.attempts) : Evolves named a b where
  canonical h := ⟨fun hf => h.held (hheld ▸ hf), fun hl => h.attempts (hattempts ▸ hl)⟩
  mentions ref h := by
    rw [Mentions, hheld, hattempts] at h
    exact .inl h

/-!
## Single changes

To take something away names nothing, so most of these hold for any set of names, the
empty one too. Only `set` to a state that is not `notHeld` and `addAttempt` name
something.
-/

theorem evolves_set_notHeld {named : Set Ref} (env : Env) (inst : Instance) :
    Evolves named env (env.set inst .notHeld) := by
  rw [set, if_pos rfl]
  constructor
  · intro h
    refine ⟨fun {ref fact} hf => ?_, h.attempts⟩
    exact h.held (FinMap.erase_within _ _ _ _ hf)
  · rintro ref (⟨fact, hf⟩ | hattempt)
    · exact .inl (.inl ⟨fact, FinMap.erase_within _ _ _ _ hf⟩)
    · exact .inl (.inr hattempt)

theorem evolves_set (env : Env) (inst : Instance) (state : HeldState) :
    Evolves {inst.ref} env (env.set inst state) := by
  by_cases hne : state = .notHeld
  · subst hne
    exact evolves_set_notHeld env inst
  · rw [set, if_neg hne]
    constructor
    · intro h
      refine ⟨fun {ref fact} hf => ?_, h.attempts⟩
      rw [FinMap.get?_insert] at hf
      split at hf
      · cases hf
        exact hne
      · exact h.held hf
    · rintro ref (⟨fact, hf⟩ | hattempt)
      · rw [FinMap.get?_insert] at hf
        split at hf
        · rename_i heq
          exact .inr heq
        · exact .inl (.inl ⟨fact, hf⟩)
      · exact .inl (.inr hattempt)

theorem evolves_weaken {named : Set Ref} (env : Env) (affected : Instance → Bool) :
    Evolves named env (env.weaken affected) := by
  have hfact : ∀ {ref : Ref} {fact : Fact},
      (env.weaken affected).held.get? ref = some fact →
      ∃ old, env.held.get? ref = some old ∧ (fact = old ∨ fact.state = .unknown) := by
    intro ref fact h
    rw [weaken, FinMap.get?_mapValues, Option.map_eq_some_iff] at h
    obtain ⟨old, hold, hnew⟩ := h
    refine ⟨old, hold, ?_⟩
    split at hnew
    · exact .inr (by rw [← hnew])
    · exact .inl hnew.symm
  constructor
  · intro h
    refine ⟨fun hf => ?_, h.attempts⟩
    obtain ⟨old, hold, rfl | hunknown⟩ := hfact hf
    · exact h.held hold
    · rw [hunknown]
      decide
  · rintro ref (⟨fact, hf⟩ | hattempt)
    · obtain ⟨old, hold, -⟩ := hfact hf
      exact .inl (.inl ⟨old, hold⟩)
    · exact .inl (.inr hattempt)

/-- What is left of the attempts of a local comes from a list that had at least as
many. -/
theorem get?_keepAttempts {attempts : FinMap String (List Attempt)}
    {keep : Attempt → Bool} {name : String} {list : List Attempt}
    (h : (keepAttempts attempts keep).get? name = some list) :
    list ≠ [] ∧ ∃ old, attempts.get? name = some old ∧ list = old.filter keep := by
  rw [keepAttempts, FinMap.get?_filter, Option.filter_eq_some_iff, FinMap.get?_mapValues,
    Option.map_eq_some_iff] at h
  obtain ⟨⟨old, hold, hfilter⟩, hne⟩ := h
  exact ⟨by simpa using hne, old, hold, hfilter.symm⟩

theorem Evolves.of_keepAttempts {named : Set Ref} {env : Env}
    {attempts : FinMap String (List Attempt)} (keep : Attempt → Bool)
    (hpart : attempts.Within env.attempts) :
    Evolves named env { env with attempts := keepAttempts attempts keep } where
  canonical h := ⟨h.held, fun hl => (get?_keepAttempts hl).1⟩
  mentions := by
    rintro ref (hfact | ⟨name, list, hl, attempt, hmem, href⟩)
    · exact .inl (.inl hfact)
    · obtain ⟨-, old, hold, rfl⟩ := get?_keepAttempts hl
      exact .inl (.inr ⟨name, old, hpart name old hold, attempt,
        (List.mem_filter.1 hmem).1, href⟩)

theorem evolves_forgetAttempts {named : Set Ref} (env : Env) (ref : Ref) :
    Evolves named env (env.forgetAttempts ref) :=
  .of_keepAttempts _ (.refl _)

theorem evolves_unassert {named : Set Ref} (env : Env) (ref : Ref) :
    Evolves named env (env.unassert ref) :=
  .of_eq rfl rfl

theorem evolves_rebind {named : Set Ref} (env : Env) (name : String) :
    Evolves named env (env.rebind name) := by
  have hweaken : Evolves named env (env.weaken (·.ref.isRootedAt name)) :=
    evolves_weaken env _
  have hkeep : Evolves named (env.weaken (·.ref.isRootedAt name))
      { env.weaken (·.ref.isRootedAt name) with
        attempts :=
          keepAttempts (env.attempts.erase name) (!·.inst.ref.isRootedAt name) } :=
    .of_keepAttempts _ (FinMap.erase_within _ _)
  exact (hweaken.trans hkeep).trans (.of_eq rfl rfl)

theorem get?_copyEntry {ν : Type} {map : FinMap String ν} {target source name : String}
    {value : ν} (h : (copyEntry map target source).get? name = some value) :
    map.get? name = some value ∨ (name = target ∧ map.get? source = some value) := by
  unfold copyEntry at h
  cases hsource : map.get? source with
  | none =>
    rw [hsource] at h
    exact .inl h
  | some found =>
    rw [hsource] at h
    simp only [FinMap.get?_insert] at h
    split at h
    · rename_i heq
      exact .inr ⟨heq, h⟩
    · exact .inl h

theorem evolves_copyLocal {named : Set Ref} (env : Env) (target source : String) :
    Evolves named env (env.copyLocal target source) := by
  constructor
  · intro h
    refine ⟨h.held, fun hl => ?_⟩
    rcases get?_copyEntry hl with hl' | ⟨-, hl'⟩
    · exact h.attempts hl'
    · exact h.attempts hl'
  · rintro ref (hfact | ⟨name, list, hl, hmem⟩)
    · exact .inl (.inl hfact)
    · rcases get?_copyEntry hl with hl' | ⟨-, hl'⟩
      · exact .inl (.inr ⟨name, list, hl', hmem⟩)
      · exact .inl (.inr ⟨source, list, hl', hmem⟩)

theorem mem_attemptsOf {env : Env} {name : String} {attempt : Attempt} :
    attempt ∈ env.attemptsOf name ↔
      ∃ list, env.attempts.get? name = some list ∧ attempt ∈ list := by
  unfold attemptsOf
  cases env.attempts.get? name <;> simp

theorem evolves_addAttempt (env : Env) (name : String) (attempt : Attempt) :
    Evolves {attempt.inst.ref} env (env.addAttempt name attempt) := by
  constructor
  · intro h
    refine ⟨h.held, fun {name' list} hl => ?_⟩
    rw [addAttempt, FinMap.get?_insert] at hl
    split at hl
    · cases hl
      simp
    · exact h.attempts hl
  · rintro ref (hfact | ⟨name', list, hl, other, hmem, href⟩)
    · exact .inl (.inl hfact)
    · rw [addAttempt, FinMap.get?_insert] at hl
      split at hl
      · cases hl
        rcases List.mem_append.1 hmem with hold | hnew
        · obtain ⟨old, hold, hmem⟩ := mem_attemptsOf.1 hold
          exact .inl (.inr ⟨name, old, hold, other, hmem, href⟩)
        · rw [List.mem_singleton.1 hnew] at href
          exact .inr href.symm
      · exact .inl (.inr ⟨name', list, hl, other, hmem, href⟩)

/-- Deciding the attempts of a local gives states only to references that attempts are
on. -/
theorem evolves_refine {named : Set Ref} (env : Env) (name : String) (truth : Bool) :
    Evolves named env (env.refine name truth) := by
  have herase : Evolves {ref | env.Mentions ref} env
      { env with attempts := env.attempts.erase name } := by
    constructor
    · exact fun h => ⟨h.held, fun hl => h.attempts (FinMap.erase_within _ _ _ _ hl)⟩
    · rintro ref (hfact | ⟨name', list, hl, hmem⟩)
      · exact .inl (.inl hfact)
      · exact .inl (.inr ⟨name', list, FinMap.erase_within _ _ _ _ hl, hmem⟩)
  have hdecide : ∀ env', ∀ attempt ∈ env.attemptsOf name,
      Evolves {ref | env.Mentions ref} env'
        (env'.set attempt.inst (attempt.outcome truth)) := by
    intro env' attempt hmem
    obtain ⟨list, hlist, hmem⟩ := mem_attemptsOf.1 hmem
    refine (evolves_set env' attempt.inst _).mono ?_
    rintro ref rfl
    exact .inr ⟨name, list, hlist, attempt, hmem, rfl⟩
  -- What is named was spoken of before, so in the end nothing need be named at all.
  have hall : Evolves {ref | env.Mentions ref} env (env.refine name truth) :=
    (herase.trans (.foldl hdecide _)).trans (.of_eq rfl rfl)
  exact ⟨hall.canonical, fun ref h => .inl ((hall.mentions ref h).elim id id)⟩

/-! ## Calls -/

theorem evolves_release {named : Set Ref} (env : Env) (inst : Instance) :
    Evolves named env (env.release inst) := by
  have hreleased : Evolves named env
      (((env.set inst .notHeld).unassert inst.ref).forgetAttempts inst.ref) :=
    ((evolves_set_notHeld env inst).trans (evolves_unassert _ _)).trans
      (evolves_forgetAttempts _ _)
  unfold release
  split
  · exact hreleased
  · exact hreleased.trans (evolves_weaken _ _)

theorem evolves_acquire (env : Env) (inst : Instance) (mode : Mode) :
    Evolves {inst.ref} env (env.acquire inst mode) :=
  ((evolves_set env inst _).trans (evolves_unassert _ _)).trans (evolves_forgetAttempts _ _)

theorem evolves_assert (env : Env) (inst : Instance) (mode : Mode) :
    Evolves {inst.ref} env (env.assert inst mode) := by
  unfold assert
  split
  · exact .of_eq rfl rfl
  · exact (evolves_set env inst _).trans (.of_eq rfl rfl)

theorem evolves_tryAcquire (env : Env) (inst : Instance) (mode : Mode) (success : Bool)
    (result : CallResult) :
    Evolves {inst.ref} env (env.tryAcquire inst mode success result) := by
  have hforget : Evolves {inst.ref} env (env.forgetAttempts inst.ref) :=
    evolves_forgetAttempts _ _
  have hunknown :
      Evolves {inst.ref} env ((env.forgetAttempts inst.ref).set inst .unknown) :=
    hforget.trans (evolves_set _ _ _)
  unfold tryAcquire
  split
  · split
    · exact hforget.trans (evolves_set _ _ _)
    · exact hforget
  · split
    · rename_i name _
      exact hunknown.trans (evolves_addAttempt _ name ⟨inst, mode, success,
        env.state inst.ref⟩)
    · exact hunknown

end Env

/-- The capabilities that a contract may give a state. Releases are not among them: they
take a record away, or make one uncertain that is there. -/
def BoundContract.gains (contract : BoundContract) : List Ref :=
  (contract.acquires ++ contract.asserts ++ contract.tryAcquires.map (·.clause)).map
    (·.inst.ref)

namespace Env

/-- **A call names only what its contract gains.** The fold over each list of clauses is
one step for each clause, and steps compose. -/
theorem evolves_apply (env : Env) (contract : BoundContract) (result : CallResult) :
    Evolves {ref | ref ∈ contract.gains} env (env.apply contract result) := by
  have hgain :
      ∀ clause ∈ contract.acquires ++ contract.asserts
        ++ contract.tryAcquires.map (·.clause),
        ({clause.inst.ref} : Set Ref) ⊆ {ref | ref ∈ contract.gains} := by
    rintro clause hmem ref rfl
    exact List.mem_map.2 ⟨clause, hmem, rfl⟩
  have hreleases : ∀ env : Env, Evolves {ref | ref ∈ contract.gains} env
      (contract.releases.foldl (fun env clause => env.release clause.inst) env) :=
    Evolves.foldl fun env clause _ => evolves_release env clause.inst
  have hunresolved : ∀ env : Env, Evolves {ref | ref ∈ contract.gains} env
      (contract.unresolvedReleases.foldl releaseUnresolved env) :=
    Evolves.foldl fun env type? _ => evolves_weaken env _
  have hacquires : ∀ env : Env, Evolves {ref | ref ∈ contract.gains} env
      (contract.acquires.foldl
        (fun env clause => env.acquire clause.inst clause.mode) env) :=
    Evolves.foldl fun env clause hmem => (evolves_acquire env clause.inst clause.mode).mono
      (hgain clause (List.mem_append_left _ (List.mem_append_left _ hmem)))
  have hasserts : ∀ env : Env, Evolves {ref | ref ∈ contract.gains} env
      (contract.asserts.foldl (fun env clause => env.assert clause.inst clause.mode) env) :=
    Evolves.foldl fun env clause hmem => (evolves_assert env clause.inst clause.mode).mono
      (hgain clause (List.mem_append_left _ (List.mem_append_right _ hmem)))
  have htries : ∀ env : Env, Evolves {ref | ref ∈ contract.gains} env
      (contract.tryAcquires.foldl (fun env attempt => env.tryAcquire attempt.clause.inst
        attempt.clause.mode attempt.success result) env) :=
    Evolves.foldl fun env attempt hmem => (evolves_tryAcquire env _ _ _ result).mono
      (hgain attempt.clause (List.mem_append_right _ (List.mem_map_of_mem hmem)))
  exact ((((hreleases env).trans (hunresolved _)).trans (hacquires _)).trans
    (hasserts _)).trans (htries _)

/-!
## What decides the names

Two tuples of parts of an environment that calls leave alone. `background` is all that
no clause of a contract speaks of, `steering` the part of it that statements look at to
find out which references they name.
-/

theorem answer_foldl {α β : Type} (answer : Env → β) {f : Env → α → Env} {list : List α}
    (h : ∀ env, ∀ x ∈ list, answer (f env x) = answer env) (env : Env) :
    answer (list.foldl f env) = answer env := by
  induction list generalizing env with
  | nil => rfl
  | cons x rest ih =>
    rw [List.foldl_cons, ih fun env y hy => h env y (List.mem_cons_of_mem _ hy)]
    exact h env x List.mem_cons_self

/-- What no clause of a contract speaks of: what locals point to, which of them have a
known truth, and the regions. -/
def background (env : Env) : FinMap String Ref × FinMap String Bool × Nat × Bool :=
  (env.bindings, env.constants, env.suppression, env.conflict)

/-- What a statement's names depend on: what locals point to, and whether checks are
on. -/
def steering (env : Env) : FinMap String Ref × Nat := (env.bindings, env.suppression)

theorem steering_eq_of_background {a b : Env} (h : a.background = b.background) :
    a.steering = b.steering :=
  congrArg (fun known => (known.1, known.2.2.1)) h

section Background

variable (env : Env)

@[simp] theorem background_set (inst : Instance) (state : HeldState) :
    (env.set inst state).background = env.background := by
  unfold set
  split <;> rfl

@[simp] theorem background_release (inst : Instance) :
    (env.release inst).background = env.background := by
  unfold release
  split
  · exact background_set env inst .notHeld
  · exact background_set env inst .notHeld

@[simp] theorem background_acquire (inst : Instance) (mode : Mode) :
    (env.acquire inst mode).background = env.background :=
  background_set env inst (.held mode)

@[simp] theorem background_assert (inst : Instance) (mode : Mode) :
    (env.assert inst mode).background = env.background := by
  unfold assert
  split
  · rfl
  · exact background_set env inst (.held mode)

@[simp] theorem background_tryAcquire (inst : Instance) (mode : Mode) (success : Bool)
    (result : CallResult) :
    (env.tryAcquire inst mode success result).background = env.background := by
  have hset :
      ∀ state, ((env.forgetAttempts inst.ref).set inst state).background =
        env.background :=
    background_set (env.forgetAttempts inst.ref) inst
  unfold tryAcquire
  split
  · split
    · exact hset _
    · rfl
  · split
    · exact hset _
    · exact hset _

theorem background_apply (contract : BoundContract) (result : CallResult) :
    (env.apply contract result).background = env.background := by
  unfold apply
  rw [answer_foldl background (by simp), answer_foldl background (by simp),
    answer_foldl background (by simp),
    answer_foldl background (f := releaseUnresolved) (fun _ _ _ => rfl),
    answer_foldl background (by simp)]

@[simp] theorem steering_set (inst : Instance) (state : HeldState) :
    (env.set inst state).steering = env.steering :=
  steering_eq_of_background (background_set env inst state)

@[simp] theorem steering_release (inst : Instance) :
    (env.release inst).steering = env.steering :=
  steering_eq_of_background (background_release env inst)

@[simp] theorem steering_acquire (inst : Instance) (mode : Mode) :
    (env.acquire inst mode).steering = env.steering :=
  steering_eq_of_background (background_acquire env inst mode)

theorem steering_apply (contract : BoundContract) (result : CallResult) :
    (env.apply contract result).steering = env.steering :=
  steering_eq_of_background (background_apply env contract result)

end Background

end Env

end Custody
