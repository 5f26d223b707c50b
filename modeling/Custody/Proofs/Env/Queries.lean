import Custody.Proofs.Env.Evolution

/-!
# What an environment answers after a change

One equation per question and change, so that what follows never opens the maps: the
state of a capability, the attempts that wait on a local.

What a release hits is a definition, `Hits`, and not the condition written out: it comes
up in the release itself, in sequences of releases and in the theorems about calls, and
is always the same three conditions.

Some proofs want less than the equation: that a state is as before or unknown. For these
there is `state_weaken_cases`, and likewise for releases and for lists of them.
-/

set_option autoImplicit false

namespace Custody.Env

/-! ## States -/

theorem asserted_set (env : Env) (inst : Instance) (state : HeldState) :
    (env.set inst state).asserted = env.asserted := by
  unfold Env.set
  split <;> rfl

theorem constants_set (env : Env) (inst : Instance) (state : HeldState) :
    (env.set inst state).constants = env.constants :=
  congrArg (·.2.1) (background_set env inst state)

@[simp] theorem state_set (env : Env) (inst : Instance) (new : HeldState) (ref : Ref) :
    (env.set inst new).state ref = if ref = inst.ref then new else env.state ref := by
  unfold set
  split
  · rename_i hnew
    rw [state, FinMap.get?_erase]
    split
    · rw [hnew]
      rfl
    · rfl
  · rw [state, FinMap.get?_insert]
    split <;> rfl

theorem state_of_untracked {env : Env} {ref : Ref} (h : env.held.contains ref = false) :
    env.state ref = .notHeld := by
  have hnone : env.held.get? ref = none := by simpa [FinMap.contains] using h
  rw [state, hnone]
  rfl

/-- What is plainly not held cannot become uncertain: there is no record of it that
could be weakened. -/
theorem state_weaken (env : Env) (affected : Instance → Bool) (ref : Ref) :
    (env.weaken affected).state ref =
      if env.held.contains ref = true ∧ affected ⟨ref, env.type? ref⟩ = true then .unknown
      else env.state ref := by
  unfold state type? weaken FinMap.contains
  rw [FinMap.get?_mapValues]
  cases env.held.get? ref with
  | none => simp
  | some fact => by_cases haffected : affected ⟨ref, fact.type?⟩ = true <;> simp [haffected]

theorem state_weaken_cases (env : Env) (affected : Instance → Bool) (ref : Ref) :
    (env.weaken affected).state ref = env.state ref ∨
    (env.weaken affected).state ref = .unknown := by
  rw [state_weaken]
  split
  · exact .inr rfl
  · exact .inl rfl

@[simp] theorem contains_weaken (env : Env) (affected : Instance → Bool) (ref : Ref) :
    (env.weaken affected).held.contains ref = env.held.contains ref := by
  simp [weaken, FinMap.contains]

@[simp] theorem type?_weaken (env : Env) (affected : Instance → Bool) (ref : Ref) :
    (env.weaken affected).type? ref = env.type? ref := by
  unfold type? weaken
  rw [FinMap.get?_mapValues]
  cases env.held.get? ref with
  | none => rfl
  | some fact =>
    simp only [Option.map_some, Option.bind_some]
    split <;> rfl

@[simp] theorem state_unassert (env : Env) (ref other : Ref) :
    (env.unassert ref).state other = env.state other := rfl

@[simp] theorem state_forgetAttempts (env : Env) (ref other : Ref) :
    (env.forgetAttempts ref).state other = env.state other := rfl

/-- To release `inst` makes another capability uncertain: it may be the same object, and
there is no record of `inst` itself. -/
def Hits (env : Env) (inst : Instance) (ref : Ref) : Prop :=
  env.held.contains inst.ref = false ∧ env.held.contains ref = true ∧
    (⟨ref, env.type? ref⟩ : Instance).mayAlias inst = true

instance (env : Env) (inst : Instance) (ref : Ref) : Decidable (env.Hits inst ref) :=
  inferInstanceAs (Decidable (_ ∧ _ ∧ _))

theorem get?_held_set_of_ne {env : Env} {inst : Instance} {state : HeldState} {ref : Ref}
    (hne : ref ≠ inst.ref) : (env.set inst state).held.get? ref = env.held.get? ref := by
  unfold set
  split <;> simp [hne]

/-- **What a release does to the states.** Of what is released nothing is held any more;
what it hits is uncertain; and the rest is as before. -/
theorem state_release (env : Env) (inst : Instance) (ref : Ref) :
    (env.release inst).state ref =
      if ref = inst.ref then .notHeld else if env.Hits inst ref then .unknown
        else env.state ref := by
  unfold release
  split
  · rename_i htracked
    simp [Hits, htracked]
  · rename_i htracked
    rw [state_weaken]
    by_cases hself : ref = inst.ref
    · have hgone : (((env.set inst .notHeld).unassert inst.ref).forgetAttempts
          inst.ref).held.contains inst.ref = false := by
        simp [set, unassert, forgetAttempts, FinMap.contains]
      simp [hself, hgone]
    · -- The record of another capability is as it was, so its old type is the one that
      -- is compared.
      have hget :
          (((env.set inst .notHeld).unassert inst.ref).forgetAttempts
            inst.ref).held.get? ref = env.held.get? ref :=
        get?_held_set_of_ne hself
      have hcontains :
          (((env.set inst .notHeld).unassert inst.ref).forgetAttempts
            inst.ref).held.contains ref = env.held.contains ref :=
        congrArg Option.isSome hget
      have htype :
          (((env.set inst .notHeld).unassert inst.ref).forgetAttempts
            inst.ref).type? ref = env.type? ref :=
        congrArg (·.bind Fact.type?) hget
      simp [Hits, htracked, hself, hcontains, htype]

theorem state_release_self (env : Env) (inst : Instance) :
    (env.release inst).state inst.ref = .notHeld := by
  simp [state_release]

theorem state_release_cases (env : Env) (inst : Instance) {ref : Ref}
    (hne : ref ≠ inst.ref) :
    (env.release inst).state ref = env.state ref ∨
    (env.release inst).state ref = .unknown := by
  rw [state_release, if_neg hne]
  split
  · exact .inr rfl
  · exact .inl rfl

theorem state_acquire (env : Env) (inst : Instance) (mode : Mode) (ref : Ref) :
    (env.acquire inst mode).state ref = if ref = inst.ref then .held mode
      else env.state ref := by
  simp [acquire]

/-!
## States after several clauses

A call goes through lists of clauses. After a list of changes the state of a capability
is the one it had, or comes from one of the clauses; which one is rarely needed.
-/

/-- Changes of one state each, one after the other: the last one that names a capability
counts. -/
theorem state_foldl_set {α : Type} (on : α → Ref) (new : α → HeldState) {f : Env → α → Env}
    (hf : ∀ env x ref, (f env x).state ref = if ref = on x then new x else env.state ref)
    (list : List α) (env : Env) (ref : Ref) :
    (∃ x ∈ list, on x = ref ∧ (list.foldl f env).state ref = new x) ∨
      (∀ x ∈ list, on x ≠ ref) ∧ (list.foldl f env).state ref = env.state ref := by
  induction list generalizing env with
  | nil => exact .inr ⟨by simp, rfl⟩
  | cons x rest ih =>
    rw [List.foldl_cons]
    rcases ih (f env x) with ⟨later, hmem, href, hstate⟩ | ⟨hnone, hstate⟩
    · exact .inl ⟨later, List.mem_cons_of_mem _ hmem, href, hstate⟩
    · rw [hstate, hf]
      by_cases href : ref = on x
      · exact .inl ⟨x, List.mem_cons_self, href.symm, if_pos href⟩
      · exact .inr ⟨List.forall_mem_cons.2 ⟨Ne.symm href, hnone⟩, if_neg href⟩

theorem state_foldl_release_cases (releases : List BoundClause) (env : Env) (ref : Ref) :
    let after := releases.foldl (fun env clause => env.release clause.inst) env
    (after.state ref = env.state ref ∧ ∀ clause ∈ releases, clause.inst.ref ≠ ref) ∨
      after.state ref = .unknown ∨
      (after.state ref = .notHeld ∧ ∃ clause ∈ releases, clause.inst.ref = ref) := by
  induction releases generalizing env with
  | nil => exact .inl ⟨rfl, by simp⟩
  | cons clause rest ih =>
    dsimp only [List.foldl_cons] at ih ⊢
    rcases ih (env.release clause.inst) with ⟨hstate, hnone⟩ | hunknown |
      ⟨hgone, later, hmem, href⟩
    · rw [hstate, state_release]
      by_cases href : ref = clause.inst.ref
      · exact .inr (.inr ⟨if_pos href, clause, List.mem_cons_self, href.symm⟩)
      · rw [if_neg href]
        split
        · exact .inr (.inl rfl)
        · exact .inl ⟨rfl, List.forall_mem_cons.2 ⟨Ne.symm href, hnone⟩⟩
    · exact .inr (.inl hunknown)
    · exact .inr (.inr ⟨hgone, later, List.mem_cons_of_mem _ hmem, href⟩)

theorem state_foldl_releaseUnresolved_cases (types : List (Option CapId)) (env : Env)
    (ref : Ref) :
    (types.foldl releaseUnresolved env).state ref = env.state ref ∨
      (types.foldl releaseUnresolved env).state ref = .unknown := by
  induction types generalizing env with
  | nil => exact .inl rfl
  | cons type? rest ih =>
    rw [List.foldl_cons]
    rcases ih (env.releaseUnresolved type?) with hstate | hunknown
    · rw [hstate]
      exact state_weaken_cases env _ ref
    · exact .inr hunknown

/-!
## Attempts

Lists of attempts are only ever filtered or appended to. The lemmas `mem_attemptsOf_…`
say of the members what the equations say of the lists.
-/

@[simp] theorem attemptsOf_set (env : Env) (inst : Instance) (state : HeldState)
    (name : String) :
    (env.set inst state).attemptsOf name = env.attemptsOf name := by
  unfold set
  split <;> rfl

theorem getD_get?_keepAttempts (attempts : FinMap String (List Attempt))
    (keep : Attempt → Bool) (name : String) :
    ((keepAttempts attempts keep).get? name).getD []
      = ((attempts.get? name).getD []).filter keep := by
  rw [keepAttempts, FinMap.get?_filter, FinMap.get?_mapValues]
  cases attempts.get? name with
  | none => rfl
  | some list => by_cases hempty : list.filter keep = [] <;> simp [hempty, Option.filter]

@[simp] theorem attemptsOf_forgetAttempts (env : Env) (ref : Ref) (name : String) :
    (env.forgetAttempts ref).attemptsOf name = (env.attemptsOf name).filter
      (·.inst.ref != ref) :=
  getD_get?_keepAttempts env.attempts _ name

@[simp] theorem attemptsOf_unassert (env : Env) (ref : Ref) (name : String) :
    (env.unassert ref).attemptsOf name = env.attemptsOf name := rfl

@[simp] theorem attemptsOf_weaken (env : Env) (affected : Instance → Bool) (name : String) :
    (env.weaken affected).attemptsOf name = env.attemptsOf name := rfl

theorem attemptsOf_release (env : Env) (inst : Instance) (name : String) :
    (env.release inst).attemptsOf name = (env.attemptsOf name).filter
      (·.inst.ref != inst.ref) := by
  unfold release
  split <;> simp

theorem attemptsOf_acquire (env : Env) (inst : Instance) (mode : Mode) (name : String) :
    (env.acquire inst mode).attemptsOf name = (env.attemptsOf name).filter
      (·.inst.ref != inst.ref) := by
  simp [acquire]

theorem attemptsOf_rebind (env : Env) (name other : String) :
    (env.rebind name).attemptsOf other =
      if other = name then []
        else (env.attemptsOf other).filter (!·.inst.ref.isRootedAt name) := by
  have hkeep :=
    getD_get?_keepAttempts (env.attempts.erase name) (!·.inst.ref.isRootedAt name) other
  rw [FinMap.get?_erase] at hkeep
  show ((keepAttempts (env.attempts.erase name) (!·.inst.ref.isRootedAt name)).get?
      other).getD [] = _
  rw [hkeep]
  split <;> rfl

theorem mem_attemptsOf_forgetAttempts {env : Env} {ref : Ref} {name : String}
    {attempt : Attempt} (h : attempt ∈ (env.forgetAttempts ref).attemptsOf name) :
    attempt ∈ env.attemptsOf name ∧ attempt.inst.ref ≠ ref := by
  simpa using h

theorem mem_attemptsOf_release {env : Env} {inst : Instance} {name : String}
    {attempt : Attempt} (h : attempt ∈ (env.release inst).attemptsOf name) :
    attempt ∈ env.attemptsOf name ∧ attempt.inst.ref ≠ inst.ref := by
  simpa [attemptsOf_release] using h

theorem mem_attemptsOf_acquire {env : Env} {inst : Instance} {mode : Mode} {name : String}
    {attempt : Attempt} (h : attempt ∈ (env.acquire inst mode).attemptsOf name) :
    attempt ∈ env.attemptsOf name ∧ attempt.inst.ref ≠ inst.ref := by
  simpa [attemptsOf_acquire] using h

theorem attemptsOf_addAttempt (env : Env) (name other : String) (new : Attempt) :
    (env.addAttempt name new).attemptsOf other =
      if other = name then env.attemptsOf name ++ [new] else env.attemptsOf other := by
  unfold addAttempt
  rw [attemptsOf, FinMap.get?_insert]
  split <;> rfl

theorem mem_attemptsOf_addAttempt {env : Env} {name other : String} {new attempt : Attempt}
    (h : attempt ∈ (env.addAttempt name new).attemptsOf other) :
    attempt ∈ env.attemptsOf other ∨ (other = name ∧ attempt = new) := by
  rw [attemptsOf_addAttempt] at h
  split at h
  · rename_i heq
    rcases List.mem_append.1 h with hold | hnew
    · rw [heq]
      exact .inl hold
    · exact .inr ⟨heq, List.mem_singleton.1 hnew⟩
  · exact .inl h

theorem mem_attemptsOf_rebind {env : Env} {name other : String} {attempt : Attempt}
    (h : attempt ∈ (env.rebind name).attemptsOf other) :
    attempt ∈ env.attemptsOf other ∧ other ≠ name := by
  rw [attemptsOf_rebind] at h
  split at h
  · cases h
  · rename_i hne
    exact ⟨(List.mem_filter.1 h).1, hne⟩

end Custody.Env
