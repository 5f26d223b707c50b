import Custody.Proofs.Env.Effects

/-!
# What a call does to capabilities it does not name

The effects of a call come in five phases over one environment, and two of them reach
capabilities that the contract does not name: a release may hit an alias, and a release
that could not be bound may hit anything of its type. `apply_frame` says how far they
reach. A capability without a clause of its own keeps its state or becomes uncertain. It
becomes uncertain in just two cases (`Unsettles`), and never if it was not held before.
All else about it stays (`Spares`), and so does all that no clause speaks of.

That a release comes late in a contract can matter: those before it may have removed its
own record, and then it is taken to hit aliases where it would not have done so alone.
`HitsAny` follows the releases one by one for this. But no release changes the record of
another capability, so which aliases there are can be seen from the start.

`Spares` and the state are kept apart because they behave differently. What `Spares`
speaks of no phase changes, for any capability that the phase does not name, so that it
is passed through all five by transitivity. The state does change, but to one value
only; once it is unknown it stays so, which is what the lemmas on `foldl` say. Together
with the fact that hits can be told from the start this gives the state as an `if`,
without a case for each order in which phases may strike.
-/

set_option autoImplicit false

namespace Custody

/-- The capabilities that a contract names in clauses with an effect. -/
def BoundContract.named (contract : BoundContract) : List Ref :=
  contract.releases.map (·.inst.ref) ++ contract.gains

namespace Env

/-! ## What is spared -/

def attemptsOn (env : Env) (name : String) (ref : Ref) : List Attempt :=
  (env.attemptsOf name).filter (·.inst.ref = ref)

/-- From `a` to `b` nothing changes about a capability but its state, and nothing that
no clause speaks of. That it stays on record is part of this: a hit leaves the record
there and makes it unknown. -/
structure Spares (ref : Ref) (a b : Env) : Prop where
  contains : b.held.contains ref = a.held.contains ref
  type? : b.type? ref = a.type? ref
  isAsserted : b.isAsserted ref = a.isAsserted ref
  attemptsOn : ∀ name, b.attemptsOn name ref = a.attemptsOn name ref
  background : b.background = a.background

variable {ref : Ref} {a b c : Env}

theorem Spares.refl (env : Env) : Spares ref env env :=
  ⟨rfl, rfl, rfl, fun _ => rfl, rfl⟩

theorem Spares.trans (hab : Spares ref a b) (hbc : Spares ref b c) : Spares ref a c where
  contains := hbc.contains.trans hab.contains
  type? := hbc.type?.trans hab.type?
  isAsserted := hbc.isAsserted.trans hab.isAsserted
  attemptsOn name := (hbc.attemptsOn name).trans (hab.attemptsOn name)
  background := hbc.background.trans hab.background

theorem Spares.foldl {α : Type} {f : Env → α → Env} {list : List α}
    (h : ∀ env, ∀ x ∈ list, Spares ref env (f env x)) (env : Env) :
    Spares ref env (list.foldl f env) := by
  induction list generalizing env with
  | nil => exact .refl env
  | cons x rest ih =>
    have hfirst := h env x List.mem_cons_self
    have hrest := ih (fun env y hy => h env y (List.mem_cons_of_mem _ hy)) (f env x)
    exact hfirst.trans hrest

section Changes

variable (env : Env) {inst : Instance}

theorem spares_set (hne : ref ≠ inst.ref) (state : HeldState) :
    Spares ref env (env.set inst state) where
  contains := congrArg Option.isSome (get?_held_set_of_ne hne)
  type? := congrArg (·.bind Fact.type?) (get?_held_set_of_ne hne)
  isAsserted := congrArg (·.contains ref) (asserted_set env inst state)
  attemptsOn name := congrArg (List.filter _) (attemptsOf_set env inst state name)
  background := background_set env inst state

theorem spares_weaken (affected : Instance → Bool) :
    Spares ref env (env.weaken affected) where
  contains := contains_weaken env affected ref
  type? := type?_weaken env affected ref
  isAsserted := rfl
  attemptsOn _ := rfl
  background := rfl

theorem spares_unassert {other : Ref} (hne : ref ≠ other) :
    Spares ref env (env.unassert other) where
  contains := rfl
  type? := rfl
  isAsserted := by simp [isAsserted, unassert, FinMap.contains, hne]
  attemptsOn _ := rfl
  background := rfl

theorem spares_forgetAttempts {other : Ref} (hne : ref ≠ other) :
    Spares ref env (env.forgetAttempts other) where
  contains := rfl
  type? := rfl
  isAsserted := rfl
  attemptsOn name := by
    unfold attemptsOn
    rw [attemptsOf_forgetAttempts, List.filter_filter]
    refine List.filter_congr fun attempt _ => ?_
    by_cases href : attempt.inst.ref = ref
    · simp [href, hne]
    · simp [href]
  background := rfl

theorem spares_addAttempt {attempt : Attempt} (hne : ref ≠ attempt.inst.ref)
    (name : String) :
    Spares ref env (env.addAttempt name attempt) where
  contains := rfl
  type? := rfl
  isAsserted := rfl
  attemptsOn other := by
    unfold attemptsOn
    rw [attemptsOf_addAttempt]
    split
    · rename_i hother
      simp [hother, Ne.symm hne]
    · rfl
  background := rfl

theorem spares_release (hne : ref ≠ inst.ref) : Spares ref env (env.release inst) := by
  have hreleased :=
    ((spares_set env hne .notHeld).trans (spares_unassert _ hne)).trans
      (spares_forgetAttempts _ hne)
  unfold release
  split
  · exact hreleased
  · exact hreleased.trans (spares_weaken _ _)

theorem spares_acquire (hne : ref ≠ inst.ref) (mode : Mode) :
    Spares ref env (env.acquire inst mode) :=
  ((spares_set env hne (.held mode)).trans (spares_unassert _ hne)).trans
    (spares_forgetAttempts _ hne)

theorem spares_assert (hne : ref ≠ inst.ref) (mode : Mode) :
    Spares ref env (env.assert inst mode) := by
  have hinsert :
      ∀ env : Env, Spares ref env
        { env with asserted := env.asserted.insert inst.ref () } := by
    intro env
    exact ⟨rfl, rfl, by simp [isAsserted, FinMap.contains, hne], fun _ => rfl, rfl⟩
  unfold assert
  split
  · exact hinsert env
  · exact (spares_set env hne (.held mode)).trans (hinsert _)

theorem spares_tryAcquire (hne : ref ≠ inst.ref) (mode : Mode) (success : Bool)
    (result : CallResult) :
    Spares ref env (env.tryAcquire inst mode success result) := by
  have hforget := spares_forgetAttempts env hne
  unfold tryAcquire
  split
  · split
    · exact hforget.trans (spares_set _ hne _)
    · exact hforget
  · have hset := hforget.trans (spares_set _ hne .unknown)
    split
    · exact hset.trans (spares_addAttempt _ hne _)
    · exact hset

theorem state_tryAcquire_of_ne (hne : ref ≠ inst.ref) (mode : Mode) (success : Bool)
    (result : CallResult) :
    (env.tryAcquire inst mode success result).state ref = env.state ref := by
  have hset :
      ∀ state, ((env.forgetAttempts inst.ref).set inst state).state ref =
        env.state ref := by
    intro state
    rw [state_set, if_neg hne, state_forgetAttempts]
  unfold tryAcquire
  split
  · split
    · exact hset _
    · rfl
  · split
    · exact hset _
    · exact hset _

end Changes

/-!
## What becomes uncertain

Both causes are found on the environment before the call, and can be decided there.
-/

/-- A call makes a capability uncertain that it does not name. What releases that could
not be bound find is told on the environment before the call, though they come after the
others. -/
def Unsettles (env : Env) (contract : BoundContract) (ref : Ref) : Prop :=
  env.HitsAny contract.releases ref ∨ ∃ type? ∈ contract.unresolvedReleases,
    env.HitsUnresolved type? ref

instance decidableHitsAny (ref : Ref) :
    (env : Env) → (releases : List BoundClause) → Decidable (env.HitsAny releases ref)
  | _, [] => inferInstanceAs (Decidable False)
  | env, clause :: rest =>
    have := decidableHitsAny ref (env.release clause.inst) rest
    inferInstanceAs (Decidable (_ ∨ _))

instance (env : Env) (type? : Option CapId) (ref : Ref) :
    Decidable (env.HitsUnresolved type? ref) :=
  inferInstanceAs (Decidable (_ ∧ _))

instance (env : Env) (contract : BoundContract) (ref : Ref) :
    Decidable (env.Unsettles contract ref) :=
  inferInstanceAs (Decidable (_ ∨ _))

theorem hitsUnresolved_iff {env : Env} {type? : Option CapId} :
    env.HitsUnresolved type? ref ↔
      env.held.contains ref = true ∧
      (type? = none ∨ env.type? ref = none ∨ env.type? ref = type?) := by
  unfold HitsUnresolved
  simp [or_assoc]

theorem Spares.hitsUnresolved_iff {type? : Option CapId} (h : Spares ref a b) :
    b.HitsUnresolved type? ref ↔ a.HitsUnresolved type? ref := by
  unfold HitsUnresolved
  rw [h.contains, h.type?]

section Releases

variable {env : Env} {releases : List BoundClause}

theorem spares_foldl_release (hne : ∀ clause ∈ releases, ref ≠ clause.inst.ref)
    (env : Env) :
    Spares ref env (releases.foldl (fun env clause => env.release clause.inst) env) :=
  .foldl (fun env clause hmem => spares_release env (hne clause hmem)) env

/-- What releases make uncertain is on record, and may be the same object as one of what
they name. -/
theorem HitsAny.exists_mayAlias (hnamed : ref ∉ releases.map (·.inst.ref))
    (h : env.HitsAny releases ref) :
    env.held.contains ref = true ∧
      ∃ clause ∈ releases,
      (⟨ref, env.type? ref⟩ : Instance).mayAlias clause.inst = true := by
  induction releases generalizing env with
  | nil => cases h
  | cons clause rest ih =>
    simp only [List.map_cons, List.mem_cons, not_or] at hnamed
    rcases h with ⟨-, hcontains, halias⟩ | hrest
    · exact ⟨hcontains, clause, List.mem_cons_self, halias⟩
    · obtain ⟨hcontains, later, hmem, halias⟩ := ih hnamed.2 hrest
      -- The releases before this one have left the record as it was.
      have hspares := spares_release env hnamed.1
      rw [hspares.contains] at hcontains
      rw [hspares.type?] at halias
      exact ⟨hcontains, later, List.mem_cons_of_mem _ hmem, halias⟩

theorem state_foldl_release_of_unknown (hnamed : ref ∉ releases.map (·.inst.ref))
    (h : env.state ref = .unknown) :
    (releases.foldl (fun env clause => env.release clause.inst) env).state ref =
      .unknown := by
  rcases state_foldl_release_cases releases env ref with ⟨hstate, -⟩ | hunknown |
    ⟨-, clause, hmem, rfl⟩
  · exact hstate.trans h
  · exact hunknown
  · exact absurd (List.mem_map_of_mem hmem) hnamed

theorem state_foldl_release_of_hitsAny (hnamed : ref ∉ releases.map (·.inst.ref))
    (h : env.HitsAny releases ref) :
    (releases.foldl (fun env clause => env.release clause.inst) env).state ref =
      .unknown := by
  induction releases generalizing env with
  | nil => cases h
  | cons clause rest ih =>
    simp only [List.map_cons, List.mem_cons, not_or] at hnamed
    rw [List.foldl_cons]
    rcases h with hhits | hrest
    · apply state_foldl_release_of_unknown hnamed.2
      rw [state_release, if_neg hnamed.1, if_pos hhits]
    · exact ih hnamed.2 hrest

end Releases

section Unresolved

variable {env : Env} {types : List (Option CapId)}

theorem spares_foldl_releaseUnresolved (types : List (Option CapId)) (env : Env) :
    Spares ref env (types.foldl releaseUnresolved env) :=
  .foldl (fun env _ _ => spares_weaken env _) env

theorem state_foldl_releaseUnresolved_of_unknown (h : env.state ref = .unknown) :
    (types.foldl releaseUnresolved env).state ref = .unknown := by
  rcases state_foldl_releaseUnresolved_cases types env ref with hstate | hunknown
  · exact hstate.trans h
  · exact hunknown

theorem state_foldl_releaseUnresolved_of_hits {type? : Option CapId}
    (hmem : type? ∈ types) (h : env.HitsUnresolved type? ref) :
    (types.foldl releaseUnresolved env).state ref = .unknown := by
  induction types generalizing env with
  | nil => cases hmem
  | cons first rest ih =>
    rw [List.foldl_cons]
    rcases List.mem_cons.1 hmem with rfl | hrest
    · apply state_foldl_releaseUnresolved_of_unknown
      rw [releaseUnresolved, state_weaken]
      exact if_pos h
    · exact ih hrest ((spares_weaken env _).hitsUnresolved_iff.2 h)

end Unresolved

/-! ## Calls -/

section Calls

variable {contract : BoundContract}

theorem not_mem_named_iff :
    ref ∉ contract.named ↔
      (∀ clause ∈ contract.releases, ref ≠ clause.inst.ref) ∧
      (∀ clause ∈ contract.acquires, ref ≠ clause.inst.ref) ∧
        (∀ clause ∈ contract.asserts, ref ≠ clause.inst.ref) ∧
        ∀ attempt ∈ contract.tryAcquires, ref ≠ attempt.clause.inst.ref := by
  simp [BoundContract.named, BoundContract.gains, eq_comm]

theorem spares_apply (hnamed : ref ∉ contract.named) (env : Env) (result : CallResult) :
    Spares ref env (env.apply contract result) := by
  obtain ⟨hreleases, hacquires, hasserts, htries⟩ := not_mem_named_iff.1 hnamed
  have hacquired : ∀ env : Env, Spares ref env
      (contract.acquires.foldl
        (fun env clause => env.acquire clause.inst clause.mode) env) :=
    Spares.foldl fun env clause hmem =>
      spares_acquire env (hacquires clause hmem) clause.mode
  have hasserted : ∀ env : Env, Spares ref env
      (contract.asserts.foldl (fun env clause => env.assert clause.inst clause.mode) env) :=
    Spares.foldl fun env clause hmem => spares_assert env (hasserts clause hmem) clause.mode
  have htried : ∀ env : Env, Spares ref env
      (contract.tryAcquires.foldl (fun env attempt => env.tryAcquire
        attempt.clause.inst attempt.clause.mode attempt.success result) env) :=
    Spares.foldl fun env attempt hmem =>
      spares_tryAcquire env (htries attempt hmem) _ attempt.success result
  exact ((((spares_foldl_release hreleases env).trans
    (spares_foldl_releaseUnresolved contract.unresolvedReleases _)).trans
    (hacquired _)).trans (hasserted _)).trans (htried _)

theorem state_apply_of_unnamed (hnamed : ref ∉ contract.named) (env : Env)
    (result : CallResult) :
    (env.apply contract result).state ref =
      (contract.unresolvedReleases.foldl releaseUnresolved
        (contract.releases.foldl
          (fun env clause => env.release clause.inst) env)).state ref := by
  obtain ⟨-, hacquires, hasserts, htries⟩ := not_mem_named_iff.1 hnamed
  have hacquired : ∀ env : Env, ∀ clause ∈ contract.acquires,
      (env.acquire clause.inst clause.mode).state ref = env.state ref := by
    intro env clause hmem
    rw [state_acquire, if_neg (hacquires clause hmem)]
  have hasserted : ∀ env : Env, ∀ clause ∈ contract.asserts,
      (env.assert clause.inst clause.mode).state ref = env.state ref := by
    intro env clause hmem
    exact state_assert_of_ne (hasserts clause hmem)
  have htried : ∀ env : Env, ∀ attempt ∈ contract.tryAcquires,
      (env.tryAcquire attempt.clause.inst attempt.clause.mode attempt.success
        result).state ref = env.state ref := by
    intro env attempt hmem
    exact state_tryAcquire_of_ne env (htries attempt hmem) _ _ result
  unfold apply
  rw [answer_foldl (state · ref) htried, answer_foldl (state · ref) hasserted,
    answer_foldl (state · ref) hacquired]

theorem not_mem_releases (hnamed : ref ∉ contract.named) :
    ref ∉ contract.releases.map (·.inst.ref) :=
  fun hmem => hnamed (List.mem_append_left _ hmem)

variable {env : Env}

theorem state_apply_of_unsettles (hnamed : ref ∉ contract.named)
    (h : env.Unsettles contract ref) (result : CallResult) :
    (env.apply contract result).state ref = .unknown := by
  have hspares := spares_foldl_release (not_mem_named_iff.1 hnamed).1 env
  rw [state_apply_of_unnamed hnamed]
  rcases h with hhits | ⟨type?, hmem, hhits⟩
  · apply state_foldl_releaseUnresolved_of_unknown
    exact state_foldl_release_of_hitsAny (not_mem_releases hnamed) hhits
  · exact state_foldl_releaseUnresolved_of_hits hmem (hspares.hitsUnresolved_iff.2 hhits)

theorem state_apply_of_not_unsettles (hnamed : ref ∉ contract.named)
    (h : ¬ env.Unsettles contract ref) (result : CallResult) :
    (env.apply contract result).state ref = env.state ref := by
  have hspares := spares_foldl_release (not_mem_named_iff.1 hnamed).1 env
  rw [state_apply_of_unnamed hnamed, state_foldl_releaseUnresolved,
    state_foldl_release (not_mem_releases hnamed)]
  · intro hhits
    exact h (.inl hhits)
  · intro type? hmem hhits
    exact h (.inr ⟨type?, hmem, hspares.hitsUnresolved_iff.1 hhits⟩)

theorem Unsettles.cause (hnamed : ref ∉ contract.named) (h : env.Unsettles contract ref) :
    env.held.contains ref = true ∧
      ((∃ clause ∈ contract.releases,
          (⟨ref, env.type? ref⟩ : Instance).mayAlias clause.inst = true) ∨
        ∃ type? ∈ contract.unresolvedReleases,
          type? = none ∨ env.type? ref = none ∨ env.type? ref = type?) := by
  rcases h with hhits | ⟨type?, hmem, hhits⟩
  · obtain ⟨hcontains, halias⟩ := hhits.exists_mayAlias (not_mem_releases hnamed)
    exact ⟨hcontains, .inl halias⟩
  · obtain ⟨hcontains, htype⟩ := hitsUnresolved_iff.1 hhits
    exact ⟨hcontains, .inr ⟨type?, hmem, htype⟩⟩

/-- **A call reaches little of what it does not name.** A capability without a clause of
its own becomes uncertain or keeps its state. To become uncertain it has to be on
record, and either may be the same object as something released, or a release that could
not be bound was of its type, or one of the two types is not known. What is plainly not
held stays so. Its assertions and the attempts on it stay, and so do bindings, known
truths and regions. -/
theorem apply_frame (hnamed : ref ∉ contract.named) (env : Env) (result : CallResult) :
    let after := env.apply contract result
    (after.state ref = if env.Unsettles contract ref then .unknown else env.state ref) ∧
      (env.Unsettles contract ref → env.held.contains ref = true ∧
        ((∃ clause ∈ contract.releases,
            (⟨ref, env.type? ref⟩ : Instance).mayAlias clause.inst = true) ∨
          ∃ type? ∈ contract.unresolvedReleases,
            type? = none ∨ env.type? ref = none ∨ env.type? ref = type?)) ∧
      (env.Canonical → env.state ref = .notHeld → after.state ref = .notHeld) ∧
      after.isAsserted ref = env.isAsserted ref ∧
      (∀ name, after.attemptsOn name ref = env.attemptsOn name ref) ∧
      after.bindings = env.bindings ∧ after.constants = env.constants ∧
      after.suppression = env.suppression ∧
      after.conflict = env.conflict := by
  intro after
  have hspares := spares_apply hnamed env result
  have hbackground := hspares.background
  simp only [background, Prod.mk.injEq] at hbackground
  refine ⟨?_, fun h => h.cause hnamed, ?_, hspares.isAsserted, hspares.attemptsOn,
    hbackground⟩
  · split
    · rename_i hunsettles
      exact state_apply_of_unsettles hnamed hunsettles result
    · rename_i hunsettles
      exact state_apply_of_not_unsettles hnamed hunsettles result
  · intro hcanonical hstate
    -- What is not held is not on record, and only what is on record can become
    -- uncertain.
    have huntouched : ¬ env.Unsettles contract ref := by
      intro hunsettles
      exact hcanonical.tracked_iff.1 (hunsettles.cause hnamed).1 hstate
    exact (state_apply_of_not_unsettles hnamed huntouched result).trans hstate

/-- A lock that is held, and what a pointer leads to, which may be the lock and is held
too. To release the target once is no news about the lock. The second release finds no
record of the target, and then it may have been the lock. A lock of another type is
never concerned. -/
theorem apply_frame_twice :
    let lock : Instance := ⟨.var "a", some ⟨0⟩⟩
    let other : Instance := ⟨.var "b", some ⟨1⟩⟩
    let target : Instance := ⟨.deref (.var "p"), some ⟨0⟩⟩
    let drop : BoundClause := ⟨target, .exclusive, "__releases(p)"⟩
    let once : BoundContract := { callee := "drop", releases := [drop] }
    let twice : BoundContract := { callee := "drop", releases := [drop, drop] }
    let env :=
      ((empty.acquire lock .exclusive).acquire other .shared).acquire target .exclusive
    lock.ref ∉ once.named ∧ lock.ref ∉ twice.named ∧ other.ref ∉ twice.named ∧
      (env.apply once {}).state lock.ref = .heldExclusive ∧
      (env.apply twice {}).state lock.ref = .unknown ∧
      (env.apply twice {}).state other.ref = .heldShared := by
  intro lock other target drop once twice env
  have honce : lock.ref ∉ once.named := by decide
  have htwice : lock.ref ∉ twice.named := by decide
  have hother : other.ref ∉ twice.named := by decide
  refine ⟨honce, htwice, hother, (apply_frame honce env {}).1.trans ?_,
    (apply_frame htwice env {}).1.trans ?_, (apply_frame hother env {}).1.trans ?_⟩
  all_goals decide

end Calls

end Env

end Custody
