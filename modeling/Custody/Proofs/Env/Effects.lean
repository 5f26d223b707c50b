import Custody.Proofs.Env.Queries

/-!
# What the effects of a call leave standing

Two things about an environment can be out of date after a call: a hold that may have
been given up through another name, and an attempt that waits for its result although
the call has decided the matter. This module says exactly which of them are dealt with.

* `apply_release_iff` — a release makes all uncertain that may be the same object, if
  there is no record of what is released; if there is one, it spares them, also where
  the record says that nothing is known.
* `apply_settles_iff` — releases and acquisitions settle the attempts on what they name;
  assertions, releases through an alias and releases that could not be bound leave them.

In both cases a fact that the program relies on later may be stale:
`release_spares_alias`, `assert_leaves_attempt`.

## Why these are equivalences

What one would like to be true is that a call deals with all it makes stale. It does
not, and a theorem that leaves the other cases out would be true and misleading. So both
results say when it does and, by the other direction, when it does not; the two examples
are each an instance of that direction.

## Why a call touches more than it names

`Touches` collects what a call can change the state of. Releases are followed one after
the other (`HitsAny`), because a release that comes second may find that the first has
taken its own record away. Releases that could not be bound come after all that could,
and find the environment that those have left.
-/

set_option autoImplicit false

namespace Custody

/-- Of things that are on different capabilities, those on the same one as a given
thing. -/
theorem filter_eq_singleton {α : Type} {on : α → Ref} {list : List α}
    (hapart : (list.map on).Nodup) {x : α} (hx : x ∈ list) :
    list.filter (on · = on x) = [x] := by
  induction list with
  | nil => cases hx
  | cons first rest ih =>
    rw [List.map_cons, List.nodup_cons] at hapart
    rcases List.mem_cons.1 hx with rfl | hmem
    · have hnone : rest.filter (on · = on x) = [] := by
        rw [List.filter_eq_nil_iff]
        intro other hother heq
        exact hapart.1 (of_decide_eq_true heq ▸ List.mem_map_of_mem hother)
      simp [hnone]
    · have hne : on first ≠ on x := by
        intro heq
        exact hapart.1 (heq ▸ List.mem_map_of_mem hmem)
      rw [List.filter_cons_of_neg (by simpa using hne), ih hapart.2 hmem]

namespace Env

/-!
## Releases and aliases

A release looks for a record of what it names. If there is one it believes that this is
what is given up, and does not look at aliases.
-/

theorem Canonical.tracked_iff {env : Env} (h : env.Canonical) {ref : Ref} :
    env.held.contains ref = true ↔ env.state ref ≠ .notHeld := by
  by_cases hstate : env.state ref = .notHeld <;>
    simp [FinMap.contains, h.get?_held ref, hstate]

/-- After a release of `inst` nothing else that may be the same object is certain. What
was plainly not held stays so, and has no mode either. -/
def Demoted (before after : Env) (inst : Instance) : Prop :=
  ∀ ref, ref ≠ inst.ref → (⟨ref, before.type? ref⟩ : Instance).mayAlias inst = true →
    (after.state ref).mode? = none ∧ (before.state ref ≠ .notHeld →
      after.state ref = .unknown)

theorem demoted_release_of_untracked {env : Env} {inst : Instance}
    (h : env.held.contains inst.ref = false) : env.Demoted (env.release inst) inst := by
  intro ref hne halias
  rw [state_release, if_neg hne]
  by_cases htracked : env.held.contains ref = true
  · rw [if_pos ⟨h, htracked, halias⟩]
    exact ⟨rfl, fun _ => rfl⟩
  · have hstate := state_of_untracked (Bool.eq_false_iff.2 htracked)
    simp [Hits, htracked, hstate, HeldState.mode?]

theorem demoted_release_of_tracked {env : Env} {inst : Instance}
    (h : env.held.contains inst.ref = true) :
    env.Demoted (env.release inst) inst ↔
      ∀ ref, ref ≠ inst.ref → (⟨ref, env.type? ref⟩ : Instance).mayAlias inst = true →
        (env.state ref).mode? = none := by
  have hspared : ∀ ref, ref ≠ inst.ref → (env.release inst).state ref = env.state ref := by
    intro ref hne
    simp [state_release, hne, Hits, h]
  constructor
  · intro hdemoted ref hne halias
    rw [← hspared ref hne]
    exact (hdemoted ref hne halias).1
  · intro hnone ref hne halias
    rw [hspared ref hne]
    refine ⟨hnone ref hne halias, fun hstate => ?_⟩
    exact (HeldState.mode?_eq_none_iff.1 (hnone ref hne halias)).resolve_left hstate

/-- **When a release makes its aliases uncertain**: if there is no record of what is
released, or none of the others that it may be is certain anyway. In an environment of
the analysis there is no record exactly of what is plainly not held. What is released
may be unknown, and then its aliases are spared. -/
theorem apply_release_iff (env : Env) (callee : String) (clause : BoundClause)
    (result : CallResult) :
    (env.Demoted (env.apply { callee, releases := [clause] } result) clause.inst ↔
      env.held.contains clause.inst.ref = false ∨
        ∀ ref, ref ≠ clause.inst.ref →
          (⟨ref, env.type? ref⟩ : Instance).mayAlias clause.inst = true →
          (env.state ref).mode? = none) ∧
      (env.Canonical →
        (env.held.contains clause.inst.ref = false ↔
          env.state clause.inst.ref = .notHeld)) := by
  constructor
  · show env.Demoted (env.release clause.inst) clause.inst ↔ _
    by_cases htracked : env.held.contains clause.inst.ref = true
    · simp [htracked, demoted_release_of_tracked htracked]
    · have huntracked := Bool.eq_false_iff.2 htracked
      simp [huntracked, demoted_release_of_untracked huntracked]
  · intro hcanonical
    rw [← not_iff_not, Bool.not_eq_false]
    exact hcanonical.tracked_iff

/-- **A merge can hide a release.** With `a` held, a release through a pointer makes `a`
uncertain. Where paths meet of which one acquired through the pointer before, the same
release leaves `a` held. -/
theorem release_spares_alias :
    let lock : Instance := ⟨.var "a", some ⟨0⟩⟩
    let target : Instance := ⟨.deref (.var "p"), some ⟨0⟩⟩
    let release : BoundContract :=
      { callee := "f", releases := [⟨target, .exclusive, "__releases(l)"⟩] }
    let before := empty.acquire lock .exclusive
    let merged := before.join (before.acquire target .exclusive)
    lock.mayAlias target = true ∧ before.state target.ref = .notHeld ∧
      merged.state target.ref = .unknown ∧
      (before.apply release {}).state lock.ref = .unknown ∧
      (merged.apply release {}).state lock.ref = .heldExclusive := by
  decide

/-!
## Attempts

An attempt waits on the local that has its result, and is decided when that local is
tested. There may be several on one capability in one local; they are decided in order,
so that the last one counts (`state_refine`).
-/

/-- An attempt on a capability waits for its result to be tested. On which local it
waits is left open, and there may be several. -/
def Pending (env : Env) (ref : Ref) : Prop :=
  ∃ name, ∃ attempt ∈ env.attemptsOf name, attempt.inst.ref = ref

theorem pending_iff_of_filter {a b : Env} (keep : Ref → Bool)
    (h : ∀ name, b.attemptsOf name = (a.attemptsOf name).filter (keep ·.inst.ref))
    (ref : Ref) :
    b.Pending ref ↔ keep ref = true ∧ a.Pending ref := by
  unfold Pending
  simp only [h, List.mem_filter]
  constructor
  · rintro ⟨name, attempt, ⟨hmem, hkeep⟩, rfl⟩
    exact ⟨hkeep, name, attempt, hmem, rfl⟩
  · rintro ⟨hkeep, name, attempt, hmem, rfl⟩
    exact ⟨name, attempt, ⟨hmem, hkeep⟩, rfl⟩

@[simp] theorem pending_set (env : Env) (inst : Instance) (state : HeldState) (ref : Ref) :
    (env.set inst state).Pending ref ↔ env.Pending ref := by
  simp [Pending]

@[simp] theorem pending_forgetAttempts (env : Env) (other ref : Ref) :
    (env.forgetAttempts other).Pending ref ↔ ref ≠ other ∧ env.Pending ref := by
  rw [pending_iff_of_filter (· != other) (attemptsOf_forgetAttempts env other), bne_iff_ne]

@[simp] theorem pending_addAttempt (env : Env) (name : String) (new : Attempt) (ref : Ref) :
    (env.addAttempt name new).Pending ref ↔ env.Pending ref ∨ new.inst.ref = ref := by
  constructor
  · rintro ⟨other, attempt, hmem, rfl⟩
    rcases mem_attemptsOf_addAttempt hmem with hmem | ⟨-, rfl⟩
    · exact .inl ⟨other, attempt, hmem, rfl⟩
    · exact .inr rfl
  · rintro (⟨other, attempt, hmem, rfl⟩ | rfl)
    · refine ⟨other, attempt, ?_, rfl⟩
      rw [attemptsOf_addAttempt]
      split
      · rename_i hother
        exact List.mem_append_left _ (hother ▸ hmem)
      · exact hmem
    · exact ⟨name, new, by simp [attemptsOf_addAttempt], rfl⟩

def lastAttempt? (env : Env) (name : String) (ref : Ref) : Option Attempt :=
  ((env.attemptsOf name).filter (·.inst.ref = ref)).getLast?

theorem state_foldl_outcome (list : List Attempt) (truth : Bool) (env : Env) (ref : Ref) :
    (list.foldl
        (fun env attempt => env.set attempt.inst (attempt.outcome truth)) env).state ref
      = ((list.filter (·.inst.ref = ref)).getLast?).elim (env.state ref)
        (·.outcome truth) := by
  induction list generalizing env with
  | nil => rfl
  | cons attempt rest ih =>
    rw [List.foldl_cons, ih, state_set]
    by_cases href : ref = attempt.inst.ref
    · subst href
      cases hlast : (rest.filter (·.inst.ref = attempt.inst.ref)).getLast? <;>
        simp [List.getLast?_cons, hlast]
    · simp [href, Ne.symm href]

/-- **What a test does to the states.** The last attempt on a capability counts, and
where there is none the state is as before. -/
theorem state_refine (env : Env) (name : String) (truth : Bool) (ref : Ref) :
    (env.refine name truth).state ref
      = (env.lastAttempt? name ref).elim (env.state ref) (·.outcome truth) :=
  state_foldl_outcome (env.attemptsOf name) truth _ ref

theorem answer_foldl_outcome {β : Type} (answer : Env → β)
    (hset : ∀ (env : Env) inst state, answer (env.set inst state) = answer env)
    (env : Env) (list : List Attempt) (truth : Bool) :
    answer (list.foldl
      (fun env attempt => env.set attempt.inst (attempt.outcome truth)) env) = answer env :=
  answer_foldl answer (fun env attempt _ => hset env attempt.inst _) env

theorem attemptsOf_refine (env : Env) (name : String) (truth : Bool) (other : String) :
    (env.refine name truth).attemptsOf other = if other = name then []
      else env.attemptsOf other := by
  have hdecided :=
    answer_foldl_outcome (attemptsOf · other) (fun env inst state =>
      attemptsOf_set env inst state other)
    { env with attempts := env.attempts.erase name } (env.attemptsOf name) truth
  refine hdecided.trans ?_
  simp only [attemptsOf, FinMap.get?_erase]
  split <;> rfl

theorem asserted_refine (env : Env) (name : String) (truth : Bool) :
    (env.refine name truth).asserted = env.asserted :=
  answer_foldl_outcome asserted asserted_set
    { env with attempts := env.attempts.erase name } (env.attemptsOf name) truth

theorem background_refine (env : Env) (name : String) (truth : Bool) :
    (env.refine name truth).background
      = (env.bindings, env.constants.insert name truth, env.suppression, env.conflict) := by
  have hdecided :=
    answer_foldl_outcome background background_set
      { env with attempts := env.attempts.erase name }
    (env.attemptsOf name) truth
  exact congrArg (fun known => (known.1, known.2.1.insert name truth, known.2.2)) hdecided

/-!
## Attempts after a call

Without try-acquires a call adds no attempt, and what it takes away can be said in one
equation: those on what it releases or acquires by name (`attemptsOf_apply`).
-/

@[simp] theorem attemptsOf_assert (env : Env) (inst : Instance) (mode : Mode)
    (name : String) :
    (env.assert inst mode).attemptsOf name = env.attemptsOf name := by
  unfold assert
  split
  · rfl
  · exact attemptsOf_set env inst _ name

theorem attemptsOf_foldl {α : Type} {f : Env → α → Env} {on : α → Ref} {name : String}
    (h : ∀ env x, (f env x).attemptsOf name = (env.attemptsOf name).filter
      (·.inst.ref != on x))
    (list : List α) (env : Env) :
    (list.foldl f env).attemptsOf name = (env.attemptsOf name).filter
      (·.inst.ref ∉ list.map on) := by
  induction list generalizing env with
  | nil => simp
  | cons x rest ih =>
    rw [List.foldl_cons, ih, h, List.filter_filter]
    refine List.filter_congr fun attempt _ => Bool.eq_iff_iff.2 ?_
    simp [and_comm]

end Env

/-- What a contract releases or acquires by name. Attempts on these are forgotten, since
a call has decided their state. -/
def BoundContract.settled (contract : BoundContract) : List Ref :=
  (contract.releases ++ contract.acquires).map (·.inst.ref)

namespace Env

variable {contract : BoundContract}

/-- **Attempts outlive a call, but those on what it releases or acquires.** Assertions
keep them, and so do releases of other things through an alias. -/
theorem attemptsOf_apply (htry : contract.tryAcquires = []) (env : Env)
    (result : CallResult) (name : String) :
    (env.apply contract result).attemptsOf name
      = (env.attemptsOf name).filter (·.inst.ref ∉ contract.settled) := by
  unfold apply
  rw [htry, List.foldl_nil, answer_foldl (attemptsOf · name) (by simp),
    attemptsOf_foldl (fun env clause =>
      attemptsOf_acquire env clause.inst clause.mode name),
    answer_foldl (attemptsOf · name) (f := releaseUnresolved) (fun _ _ _ => rfl),
    attemptsOf_foldl (fun env clause => attemptsOf_release env clause.inst name),
    List.filter_filter]
  refine List.filter_congr fun attempt _ => ?_
  simp [BoundContract.settled, Bool.and_comm]

theorem pending_apply (htry : contract.tryAcquires = []) (env : Env)
    (result : CallResult) (ref : Ref) :
    (env.apply contract result).Pending ref ↔ ref ∉ contract.settled ∧ env.Pending ref := by
  rw [pending_iff_of_filter (· ∉ contract.settled) (attemptsOf_apply htry env result),
    decide_eq_true_eq]

theorem lastAttempt?_apply (htry : contract.tryAcquires = []) (env : Env)
    (result : CallResult) (name : String) (ref : Ref) :
    (env.apply contract result).lastAttempt? name ref
      = if ref ∈ contract.settled then none else env.lastAttempt? name ref := by
  unfold lastAttempt?
  rw [attemptsOf_apply htry, List.filter_filter]
  split
  · rename_i hsettled
    rw [List.getLast?_eq_none_iff, List.filter_eq_nil_iff]
    rintro attempt - hkeep
    simp only [Bool.and_eq_true, decide_eq_true_eq] at hkeep
    exact hkeep.2 (hkeep.1 ▸ hsettled)
  · rename_i hsettled
    refine congrArg List.getLast? (List.filter_congr fun attempt _ => ?_)
    by_cases href : attempt.inst.ref = ref
    · simp [href, hsettled]
    · simp [href]

/-! ## What a call touches -/

/-- One of several releases, each after those before it, makes a capability
uncertain. -/
def HitsAny (env : Env) : List BoundClause → Ref → Prop
  | [], _ => False
  | clause :: rest, ref =>
    env.Hits clause.inst ref ∨ (env.release clause.inst).HitsAny rest ref

/-- A release of something of a type, or of anything, makes a capability uncertain. It
has to be on record, and one of the two types may be missing. -/
def HitsUnresolved (env : Env) (type? : Option CapId) (ref : Ref) : Prop :=
  env.held.contains ref = true ∧
    (type?.isNone || (env.type? ref).isNone || env.type? ref == type?) = true

/-- What a call without try-acquires can change the state of. Each case is one way in
which a phase of the call reaches a capability. -/
inductive Touches (env : Env) (contract : BoundContract) (ref : Ref) : Prop where
  | released (h : ref ∈ contract.releases.map (·.inst.ref))
  | acquired (h : ref ∈ contract.acquires.map (·.inst.ref))
  | asserted (h : ref ∈ contract.asserts.map (·.inst.ref))
  | aliased (h : env.HitsAny contract.releases ref)
  | unresolved {type? : Option CapId} (hmem : type? ∈ contract.unresolvedReleases)
      (h : (contract.releases.foldl
        (fun env clause => env.release clause.inst) env).HitsUnresolved type? ref)

theorem state_foldl_release {ref : Ref} {releases : List BoundClause} {env : Env}
    (hnamed : ref ∉ releases.map (·.inst.ref)) (hhits : ¬ env.HitsAny releases ref) :
    (releases.foldl (fun env clause => env.release clause.inst) env).state ref =
      env.state ref := by
  induction releases generalizing env with
  | nil => rfl
  | cons clause rest ih =>
    simp only [List.map_cons, List.mem_cons, not_or] at hnamed
    simp only [HitsAny, not_or] at hhits
    rw [List.foldl_cons, ih hnamed.2 hhits.2, state_release, if_neg hnamed.1,
      if_neg hhits.1]

theorem state_foldl_releaseUnresolved {ref : Ref} {types : List (Option CapId)} {env : Env}
    (hhits : ∀ type? ∈ types, ¬ env.HitsUnresolved type? ref) :
    (types.foldl releaseUnresolved env).state ref = env.state ref := by
  induction types generalizing env with
  | nil => rfl
  | cons type? rest ih =>
    obtain ⟨hfirst, hrest⟩ := List.forall_mem_cons.1 hhits
    have hstate : (env.releaseUnresolved type?).state ref = env.state ref := by
      rw [releaseUnresolved, state_weaken]
      exact if_neg hfirst
    rw [List.foldl_cons, ih, hstate]
    -- To become uncertain changes neither what is on record nor its type.
    intro other hother
    simpa [HitsUnresolved, releaseUnresolved] using hrest other hother

theorem state_assert_of_ne {env : Env} {inst : Instance} {mode : Mode} {ref : Ref}
    (hne : ref ≠ inst.ref) :
    (env.assert inst mode).state ref = env.state ref := by
  unfold assert
  split
  · rfl
  · show (env.set inst (.held mode)).state ref = env.state ref
    simp [hne]

theorem state_apply_of_not_touches (htry : contract.tryAcquires = []) {env : Env}
    {ref : Ref} (h : ¬ env.Touches contract ref) (result : CallResult) :
    (env.apply contract result).state ref = env.state ref := by
  have hacquires : ∀ env : Env, ∀ clause ∈ contract.acquires,
      (env.acquire clause.inst clause.mode).state ref = env.state ref := by
    intro env clause hmem
    rw [state_acquire, if_neg]
    rintro rfl
    exact h (.acquired (List.mem_map_of_mem hmem))
  have hasserts : ∀ env : Env, ∀ clause ∈ contract.asserts,
      (env.assert clause.inst clause.mode).state ref = env.state ref := by
    intro env clause hmem
    apply state_assert_of_ne
    rintro rfl
    exact h (.asserted (List.mem_map_of_mem hmem))
  unfold apply
  rw [htry, List.foldl_nil, answer_foldl (state · ref) hasserts,
    answer_foldl (state · ref) hacquires,
    state_foldl_releaseUnresolved fun _ hmem hhits => h (.unresolved hmem hhits),
    state_foldl_release (fun hnamed => h (.released hnamed))
      fun hhits => h (.aliased hhits)]

/-- **Which attempts a call settles.** It changes the state only of what it touches. No
attempt on any of this waits after the call exactly if those that waited before are on
what is released or acquired by name. A test after the call leaves the state of a
capability as the call left it exactly if it is one of these, or the last attempt on it
in each local decides for just that state. -/
theorem apply_settles_iff (htry : contract.tryAcquires = []) (env : Env)
    (result : CallResult) :
    (∀ ref, ¬ env.Touches contract ref →
      (env.apply contract result).state ref = env.state ref) ∧
      ((∀ ref, env.Touches contract ref → ¬ (env.apply contract result).Pending ref) ↔
        ∀ ref, env.Touches contract ref → ref ∈ contract.settled ∨ ¬ env.Pending ref) ∧
      ∀ ref, (∀ name truth, ((env.apply contract result).refine name truth).state ref
            = (env.apply contract result).state ref) ↔
          ref ∈ contract.settled ∨ ∀ name attempt,
          env.lastAttempt? name ref = some attempt →
            ∀ truth, attempt.outcome truth = (env.apply contract result).state ref := by
  refine ⟨fun ref h => state_apply_of_not_touches htry h result, ?_, fun ref => ?_⟩
  · refine forall_congr' fun ref => imp_congr_right fun _ => ?_
    rw [pending_apply htry, not_and_or, not_not]
  · simp only [state_refine, lastAttempt?_apply htry]
    by_cases hsettled : ref ∈ contract.settled
    · simp [hsettled]
    · simp only [hsettled, ↓reduceIte, false_or]
      constructor
      · intro h name attempt hlast truth
        have hleft := h name truth
        rwa [hlast] at hleft
      · intro h name truth
        cases hlast : env.lastAttempt? name ref with
        | none => rfl
        | some attempt => exact h name attempt hlast truth

/-- A release by name: what the attempt gives is given up, whatever its result. -/
theorem apply_settles_iff_release :
    let lock : Instance := ⟨.var "a", some ⟨0⟩⟩
    let release : BoundContract :=
      { callee := "f", releases := [⟨lock, .exclusive, "__releases(l)"⟩] }
    let waiting := empty.tryAcquire lock .exclusive true ⟨some "ok", none⟩
    release.tryAcquires = [] ∧ waiting.Touches release lock.ref ∧ waiting.Pending lock.ref ∧
      ¬ (waiting.apply release {}).Pending lock.ref ∧
      ∀ name truth, ((waiting.apply release {}).refine name truth).state lock.ref =
        .notHeld := by
  intro lock release waiting
  obtain ⟨-, hpending, hstates⟩ :=
    apply_settles_iff (rfl : release.tryAcquires = []) waiting {}
  have hsettled : lock.ref ∈ release.settled := by decide
  have hall : ∀ ref, waiting.Touches release ref →
      ref ∈ release.settled ∨ ¬ waiting.Pending ref := by
    -- The lock is the only one that an attempt waits on.
    intro ref _
    by_cases href : ref = lock.ref
    · exact .inl (href ▸ hsettled)
    · refine .inr ?_
      rintro ⟨name, attempt, hmem, rfl⟩
      rcases mem_attemptsOf_addAttempt hmem with hmem | ⟨-, rfl⟩
      · have hnone : (empty.forgetAttempts lock.ref).attemptsOf name = [] := rfl
        rw [attemptsOf_set, hnone] at hmem
        cases hmem
      · exact href rfl
  refine ⟨rfl, .released (by decide),
    ⟨"ok", ⟨lock, .exclusive, true, .notHeld⟩, by decide, rfl⟩,
    hpending.2 hall lock.ref (.released (by decide)), fun name truth => ?_⟩
  exact (hstates lock.ref).2 (.inl hsettled) name truth

/-- **Attempts that a call should have settled.** After an assertion the lock is held,
until the result of an older attempt is found false. After a release through an alias,
or of something unknown, it may have been given up, until the result is found true. -/
theorem assert_leaves_attempt :
    let lock : Instance := ⟨.var "a", some ⟨0⟩⟩
    let target : Instance := ⟨.deref (.var "p"), some ⟨0⟩⟩
    let waiting := empty.tryAcquire lock .exclusive true ⟨some "ok", none⟩
    let asserted :=
      waiting.apply { callee := "f", asserts := [⟨lock, .exclusive, "__assert(l)"⟩] } {}
    let released :=
      waiting.apply { callee := "f", releases := [⟨target, .exclusive, "__releases(l)"⟩] } {}
    let lost := waiting.apply { callee := "f", unresolvedReleases := [some ⟨0⟩] } {}
    asserted.state lock.ref = .heldExclusive ∧
    (asserted.refine "ok" false).state lock.ref = .notHeld ∧
      released.state lock.ref = .unknown ∧ (released.refine "ok" true).state lock.ref =
        .heldExclusive ∧
      lost.state lock.ref = .unknown ∧ (lost.refine "ok" true).state lock.ref =
        .heldExclusive := by
  decide

end Env

end Custody
