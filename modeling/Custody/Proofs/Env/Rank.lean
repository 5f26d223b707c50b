import Custody.Proofs.Env.Evolution
import Mathlib.Algebra.Order.BigOperators.Group.Finset

/-!
# Joins cannot go on changing an environment

An environment can grow by a join: a reference it never spoke of gets a state. Over a
fixed set of references it cannot, and everything else about it only shrinks.
`rank refs` counts what is left to be lost, and `rank_lt_of_ascends` says that every
change on the way up loses some of it.

Which references there are is up to what locals point to and to the open regions, that
is to `steering`. It has a weight of its own, which a join that changes it lowers
(`steering_join`).

A state goes to `unknown` and no further, and counts one until it has. A type is counted
the other way round: it can only be gained, so that having none is what can be lost. The
maps count their entries, since a join keeps those that both sides have, and a conflict
is noticed once. No summand can rise. If none falls then nothing has changed, because an
environment is what it answers (`Canonical.ext`).
-/

set_option autoImplicit false

namespace Custody

namespace Env

/-! ## References -/

theorem exists_finset_mentions (env : Env) :
    ∃ refs : Finset Ref, ∀ ref, env.Mentions ref → ref ∈ refs := by
  refine ⟨(env.held.entries.map Prod.fst ++ env.attempts.entries.flatMap
    fun entry => entry.2.map fun attempt => attempt.inst.ref).toFinset, ?_⟩
  rintro ref (⟨fact, hfact⟩ | ⟨name, list, hlist, attempt, hattempt, rfl⟩)
  · have hmem := FinMap.get?_eq_some_iff.1 hfact
    exact List.mem_toFinset.2 (List.mem_append_left _ (List.mem_map.2 ⟨_, hmem, rfl⟩))
  · have hmem := FinMap.get?_eq_some_iff.1 hlist
    exact List.mem_toFinset.2 (List.mem_append_right _
      (List.mem_flatMap.2 ⟨_, hmem, List.mem_map.2 ⟨attempt, hattempt, rfl⟩⟩))

theorem mentions_of_mentions_join {a b : Env} {ref : Ref} (h : (a.join b).Mentions ref) :
    a.Mentions ref ∨ b.Mentions ref := by
  rcases h with ⟨fact, hfact⟩ | ⟨name, list, hlist, hattempt⟩
  · rw [get?_held_join] at hfact
    cases ha : a.held.get? ref with
    | some fact' => exact .inl (.inl ⟨fact', ha⟩)
    | none =>
      cases hb : b.held.get? ref with
      | some fact' => exact .inr (.inl ⟨fact', hb⟩)
      | none =>
        rw [ha, hb] at hfact
        cases hfact
  · exact .inl (.inr ⟨name, list, FinMap.agreeing_within_left _ _ name list hlist,
      hattempt⟩)

/-! ## Steering -/

def steeringWeight (key : FinMap String Ref × Nat) : Nat := key.1.size + key.2

theorem steering_join (a b : Env) :
    (a.join b).steering = a.steering ∨
      steeringWeight (a.join b).steering < steeringWeight a.steering := by
  have hwithin : (a.bindings.agreeing b.bindings).Within a.bindings :=
    FinMap.agreeing_within_left _ _
  have hmin : min a.suppression b.suppression ≤ a.suppression := Nat.min_le_left _ _
  by_cases hbindings : a.bindings.agreeing b.bindings = a.bindings
  · by_cases hsuppression : min a.suppression b.suppression = a.suppression
    · exact .inl (Prod.ext hbindings hsuppression)
    · refine .inr ?_
      show (a.bindings.agreeing b.bindings).size + min a.suppression b.suppression
        < a.bindings.size + a.suppression
      rw [hbindings]
      omega
  · refine .inr ?_
    have hless := hwithin.size_lt hbindings
    show (a.bindings.agreeing b.bindings).size + min a.suppression b.suppression
      < a.bindings.size + a.suppression
    omega

/-! ## Rank -/

/-- What can still be lost about one reference: that its state is known, and that its
type is not. A reference that the environment does not speak of has the highest rank. -/
def refRank (env : Env) (ref : Ref) : Nat :=
  (if env.state ref = .unknown then 0 else 1) + (if env.type? ref = none then 1 else 0)

/-- What can still be lost, as far as the references are concerned among `refs` only.
The sum over all references would not be finite, since those that are not spoken of
count most. -/
def rank (refs : Finset Ref) (env : Env) : Nat :=
  (∑ ref ∈ refs, env.refRank ref) + env.asserted.size + env.attempts.size
    + env.bindings.size + env.constants.size + env.suppression
    + (if env.conflict then 0 else 1)

section Ascends

variable {a b : Env}

theorem Ascends.stateRank_le (h : a.Ascends b) (ref : Ref) :
    (if b.state ref = .unknown then 0 else 1) ≤
      if a.state ref = .unknown then 0 else 1 := by
  rcases h.state ref with heq | hunknown
  · rw [heq]
  · simp [hunknown]

theorem Ascends.typeRank_le (h : a.Ascends b) (ref : Ref) :
    (if b.type? ref = none then 1 else 0) ≤ if a.type? ref = none then 1 else 0 := by
  by_cases hnone : b.type? ref = none
  · simp [hnone, h.typed ref hnone]
  · simp [hnone]

theorem Ascends.refRank_le (h : a.Ascends b) (ref : Ref) : b.refRank ref ≤ a.refRank ref :=
  Nat.add_le_add (h.stateRank_le ref) (h.typeRank_le ref)

theorem Ascends.eq_of_refRank (h : a.Ascends b) {ref : Ref}
    (heq : b.refRank ref = a.refRank ref) :
    a.state ref = b.state ref ∧ a.type? ref = b.type? ref := by
  have hstate := h.stateRank_le ref
  have htype := h.typeRank_le ref
  unfold refRank at heq
  have hstate : (if b.state ref = .unknown then 0 else 1) = if a.state ref = .unknown
      then 0 else 1 := by
    omega
  have htype : (if b.type? ref = none then 1 else 0) =
      if a.type? ref = none then 1 else 0 := by
    omega
  constructor
  · rcases h.state ref with hsame | hunknown
    · exact hsame.symm
    · by_cases ha : a.state ref = .unknown
      · rw [ha, hunknown]
      · simp [ha, hunknown] at hstate
  · cases ha : a.type? ref with
    | some type => exact (h.type_kept ref type ha).symm
    | none =>
      by_cases hb : b.type? ref = none
      · exact hb.symm
      · simp [ha, hb] at htype

theorem Ascends.eq_of_not_mentions (h : a.Ascends b) {ref : Ref} (hb : ¬ b.Mentions ref) :
    a.state ref = b.state ref ∧ a.type? ref = b.type? ref := by
  have hnone : b.held.get? ref = none := by
    cases hget : b.held.get? ref with
    | none => rfl
    | some fact => exact absurd (.inl ⟨fact, hget⟩) hb
  have hstate : b.state ref = .notHeld := by simp [state, hnone]
  have htype : b.type? ref = none := by simp [type?, hnone]
  refine ⟨?_, (h.typed ref htype).trans htype.symm⟩
  rcases h.state ref with hsame | hunknown
  · exact hsame.symm
  · rw [hstate] at hunknown
    cases hunknown

/-- **Every change on the way up loses something.** The references have to be all that
the later environment speaks of; what it does not speak of, the earlier one did not
either. -/
theorem rank_lt_of_ascends {refs : Finset Ref} (ha : a.Canonical) (hb : b.Canonical)
    (h : a.Ascends b) (hrefs : ∀ ref, b.Mentions ref → ref ∈ refs) (hne : b ≠ a) :
    b.rank refs < a.rank refs := by
  have hsum : ∑ ref ∈ refs, b.refRank ref ≤ ∑ ref ∈ refs, a.refRank ref :=
    Finset.sum_le_sum fun ref _ => h.refRank_le ref
  have hasserted := h.asserted.size_le
  have hattempts := h.attempts.size_le
  have hbindings := h.bindings.size_le
  have hconstants := h.constants.size_le
  have hsuppression := h.suppression
  have hconflict : (if b.conflict then 0 else 1) ≤ if a.conflict then 0 else 1 := by
    by_cases hc : a.conflict = true
    · simp [hc, h.conflict (.inl hc)]
    · simp only [hc]
      split <;> simp
  by_contra hle
  -- Nothing was lost in total, so nothing was lost anywhere, and then the two are
  -- equal.
  unfold rank at hle
  have hrank : ∀ ref ∈ refs, b.refRank ref = a.refRank ref :=
    (Finset.sum_eq_sum_iff_of_le fun ref _ => h.refRank_le ref).1 (by omega)
  have hparts : ∀ ref, a.state ref = b.state ref ∧ a.type? ref = b.type? ref := by
    intro ref
    by_cases hmem : ref ∈ refs
    · exact h.eq_of_refRank (hrank ref hmem)
    · exact h.eq_of_not_mentions fun hmentions => hmem (hrefs ref hmentions)
  refine hne (hb.ext ha (fun ref => (hparts ref).1.symm) (fun ref => (hparts ref).2.symm)
    (h.asserted.eq_of_size_le (by omega)) (h.attempts.eq_of_size_le (by omega))
    (h.bindings.eq_of_size_le (by omega)) (h.constants.eq_of_size_le (by omega))
      (by omega) ?_)
  have hflag : (if b.conflict then 0 else 1) = if a.conflict then 0 else 1 := by omega
  cases hca : a.conflict <;> cases hcb : b.conflict <;> simp [hca, hcb] at hflag ⊢

end Ascends

end Env

end Custody
