import Custody.Proofs.Analysis.Access
import Custody.Proofs.Contract.Callable

/-!
# Checks where paths meet

A block is checked once, from the join of the environments that flow into it, and not
once for each path. That this misses nothing is due to what the checks do with an
unknown state: a requirement, an exclusion, a release and a guard are each met by some
states of the capability, by different ones, but none of them by `unknown`. A join is
unknown wherever the two sides differ, so it meets such a demand exactly if both sides
meet it and agree (`HeldState.join_meets_iff`).

Acquisitions are left out. They are refused only where the capability is known to be
held, so an unknown state passes, and a join can lose the report of one side.

The three kinds of clauses that ask for something are put together as `Duty`, with one
condition on the state for each (`Duty.MetBy`). They are checked by three functions with
reports of their own, and what they have in common is that `unknown` does not meet them;
with that, the argument is made once.

That the two sides have to agree is part of the equivalence and not a weakness of it.
Where a capability is held as exclusive on one path and as shared on the other, both
meet a requirement of a shared hold, and the join does not: it is reported, although
there is no path on which it fails.
-/

set_option autoImplicit false

namespace Custody

/-- Where two states meet, a demand that `unknown` does not meet is met if both states
meet it and are the same. -/
theorem HeldState.join_meets_iff {p : HeldState → Prop} (hunknown : ¬ p .unknown)
    {a b : HeldState} :
    p (a.join b) ↔ p a ∧ p b ∧ a = b := by
  unfold join
  by_cases hsame : a = b
  · subst hsame
    simp
  · simp [hsame, hunknown]

/-! ## Duties -/

/-- What a clause asks of the state before a call, acquisitions aside. An unknown state
meets none of the three, while it does not stand in the way of an acquisition. -/
inductive Duty where
  | required
  | excluded
  | released
deriving DecidableEq, Repr

/-- The clauses of a contract that ask for something before a call, in the order they
are checked. -/
def BoundContract.duties (contract : BoundContract) : List (Duty × BoundClause) :=
  contract.requires.map (.required, ·) ++ contract.excludes.map (.excluded, ·)
    ++ contract.releases.map (.released, ·)

def Duty.MetBy : Duty → Mode → HeldState → Prop
  | required, mode, state => state.satisfies mode = true
  | excluded, _, state => state = .notHeld
  | released, mode, state => state = .held mode

theorem Duty.not_metBy_unknown (duty : Duty) (mode : Mode) :
    ¬ duty.MetBy mode .unknown := by
  cases duty with
  | required => exact Bool.false_ne_true
  | excluded => exact nofun
  | released => exact (HeldState.held_ne_unknown mode).symm

namespace Env

variable {a b env : Env} {callee : String}

def checkDuty (env : Env) (callee : String) : Duty × BoundClause → Option Violation
  | (.required, clause) => env.checkRequired callee clause
  | (.excluded, clause) => env.checkExcluded callee clause
  | (.released, clause) => env.checkReleased callee clause

theorem violations_eq (env : Env) (contract : BoundContract) :
    env.violations contract = contract.duties.filterMap (env.checkDuty contract.callee)
      ++ contract.acquires.filterMap (env.checkAcquired contract.callee) := by
  simp only [violations, BoundContract.duties, List.filterMap_append, List.filterMap_map]
  rfl

theorem checkDuty_eq_none_iff {duty : Duty} {clause : BoundClause} :
    env.checkDuty callee (duty, clause) = none ↔
      duty.MetBy clause.mode (env.state clause.inst.ref) := by
  cases duty with
  | required => exact checkRequired_eq_none_iff
  | excluded => exact checkExcluded_eq_none_iff
  | released => exact checkReleased_eq_none_iff

/-- A violation is about the capability of its clause and quotes the clause. So a report
after a merge can be told to be about the same thing as one before. -/
theorem of_checkDuty {duty : Duty} {clause : BoundClause} {violation : Violation}
    (h : env.checkDuty callee (duty, clause) = some violation) :
    violation.cause.ref? = some clause.inst.ref ∧ violation.clause = clause.text := by
  cases duty with
  | required =>
    simp only [checkDuty, checkRequired] at h
    split at h <;> cases h
    exact ⟨rfl, rfl⟩
  | excluded =>
    simp only [checkDuty, checkExcluded] at h
    split at h <;> cases h
    exact ⟨rfl, rfl⟩
  | released =>
    simp only [checkDuty, checkReleased] at h
    split at h
    · cases h
      exact ⟨rfl, rfl⟩
    · split at h <;> cases h
      exact ⟨rfl, rfl⟩

theorem checkDuty_join_eq_none_iff {duty : Duty} {clause : BoundClause} :
    (a.join b).checkDuty callee (duty, clause) = none ↔
      a.checkDuty callee (duty, clause) = none ∧ b.checkDuty callee (duty, clause) = none ∧
        a.state clause.inst.ref = b.state clause.inst.ref := by
  simp only [checkDuty_eq_none_iff, state_join]
  exact HeldState.join_meets_iff (duty.not_metBy_unknown clause.mode)

/-! ## Guards -/

theorem satisfies_join_iff {ref : Ref} {mode : Mode} :
    ((a.join b).state ref).satisfies mode = true ↔
      (a.state ref).satisfies mode = true ∧ (b.state ref).satisfies mode = true ∧
      a.state ref = b.state ref := by
  rw [state_join]
  exact HeldState.join_meets_iff
    (p := fun state => state.satisfies mode = true) Bool.false_ne_true

end Env

namespace Context

variable {a b : Env}

theorem checkGuard_join_eq_nil_iff {access : Access} {accessed : Ref} {guard : Guard}
    {holder : Option Ref} :
    checkGuard (a.join b) access accessed guard holder = [] ↔
      checkGuard a access accessed guard holder = [] ∧
      checkGuard b access accessed guard holder = [] ∧
        ∀ ref, guardRef guard holder = .ok ref → a.state ref = b.state ref := by
  simp only [checkGuard_eq_nil_iff, Env.satisfies_join_iff]
  constructor
  · intro h
    exact ⟨fun ref href => (h ref href).1, fun ref href => (h ref href).2.1,
      fun ref href => (h ref href).2.2⟩
  · intro ⟨ha, hb, hsame⟩ ref href
    exact ⟨ha ref href, hb ref href, hsame ref href⟩

end Context

namespace Env

/-- **A merge hides no failed obligation.** A clause that requires, excludes or
releases, and a guard that an access needs, pass where two paths meet exactly if they
pass on both paths and the two agree on the state of the capability. So what is reported
on either path is reported after the merge, about the same capability and with the same
clause. What is reported for a contract is what is reported for these clauses, and then
for acquisitions. -/
theorem join_keeps_violations (a b : Env) :
    (∀ (env : Env) (contract : BoundContract),
      env.violations contract = contract.duties.filterMap (env.checkDuty contract.callee)
        ++ contract.acquires.filterMap (env.checkAcquired contract.callee)) ∧
    (∀ contract : BoundContract, ∀ duty ∈ contract.duties,
      ((a.join b).checkDuty contract.callee duty = none ↔
        a.checkDuty contract.callee duty = none ∧ b.checkDuty contract.callee duty = none ∧
          a.state duty.2.inst.ref = b.state duty.2.inst.ref) ∧
      (a.checkDuty contract.callee duty ≠ none ∨ b.checkDuty contract.callee duty ≠ none →
        ∃ violation ∈ (a.join b).violations contract,
          (a.join b).checkDuty contract.callee duty = some violation ∧
            violation.cause.ref? = some duty.2.inst.ref ∧ violation.clause = duty.2.text)) ∧
    (∀ ref mode, (a.state ref).satisfies mode = false ∨
      (b.state ref).satisfies mode = false →
      ((a.join b).state ref).satisfies mode = false) ∧
    ∀ access accessed guard holder,
      (Context.checkGuard a access accessed guard holder ≠ [] ∨
        Context.checkGuard b access accessed guard holder ≠ []) →
        Context.checkGuard (a.join b) access accessed guard holder ≠ [] := by
  refine ⟨violations_eq, ?_, ?_, ?_⟩
  · intro contract duty hduty
    refine ⟨checkDuty_join_eq_none_iff, ?_⟩
    intro hreported
    -- If the join met the duty, both sides would.
    have hfails : (a.join b).checkDuty contract.callee duty ≠ none := by
      intro hnone
      obtain ⟨ha, hb, -⟩ := checkDuty_join_eq_none_iff.1 hnone
      rcases hreported with h | h
      · exact h ha
      · exact h hb
    obtain ⟨violation, hviolation⟩ := Option.ne_none_iff_exists'.1 hfails
    refine ⟨violation, ?_, hviolation, of_checkDuty hviolation⟩
    rw [violations_eq]
    exact List.mem_append_left _ (List.mem_filterMap.2 ⟨duty, hduty, hviolation⟩)
  · intro ref mode hunmet
    rw [← Bool.not_eq_true, satisfies_join_iff]
    intro ⟨ha, hb, _⟩
    rcases hunmet with h | h
    · exact Bool.false_ne_true (h.symm.trans ha)
    · exact Bool.false_ne_true (h.symm.trans hb)
  · intro access accessed guard holder hreported hclean
    obtain ⟨ha, hb, -⟩ := Context.checkGuard_join_eq_nil_iff.1 hclean
    rcases hreported with h | h
    · exact h ha
    · exact h hb

/-- One path meets a contract that asks for something of each kind, the other fails in
all of it, and so does the merge. The lock that is held on one path only guards nothing
any more. -/
theorem join_keeps_violations_handOver :
    let clause (name : String) (mode : Mode) : BoundClause :=
      ⟨⟨.var name, none⟩, mode, name⟩
    let contract : BoundContract :=
      { callee := "handOver", requires := [clause "l" .exclusive]
        excludes := [clause "m" .exclusive], releases := [clause "n" .shared] }
    let guard : Guard := ⟨.var "l", ⟨0⟩, false, "__guarded_by(l)"⟩
    let here := (empty.set ⟨.var "l", none⟩ .heldExclusive).set ⟨.var "n", none⟩ .heldShared
    let there :=
      (empty.set ⟨.var "m", none⟩ .heldShared).set ⟨.var "n", none⟩ .heldExclusive
    here.violations contract = [] ∧
      (∀ duty ∈ contract.duties, there.checkDuty "handOver" duty ≠ none ∧
        ∃ violation ∈ (here.join there).violations contract,
          violation.cause.ref? = some duty.2.inst.ref) ∧
      Context.checkGuard here .read (.global "total") guard none = [] ∧
      Context.checkGuard (here.join there) .read (.global "total") guard none ≠ [] := by
  intro clause contract guard here there
  obtain ⟨-, hduties, -, hguards⟩ := join_keeps_violations here there
  have hfails : ∀ duty ∈ contract.duties, there.checkDuty "handOver" duty ≠ none := by
    decide
  refine ⟨by decide, ?_, by decide,
    hguards .read (.global "total") guard none (.inr (by decide))⟩
  intro duty hduty
  obtain ⟨violation, hviolation, -, href, -⟩ :=
    (hduties contract duty hduty).2 (.inr (hfails duty hduty))
  exact ⟨hfails duty hduty, violation, hviolation, href⟩

-- An acquisition is refused on the path that holds the lock already, and passes after
-- the merge.
example :
    let acquire : BoundContract :=
      { callee := "lock", acquires := [⟨⟨.var "l", none⟩, .exclusive, "l"⟩] }
    let here := empty.set ⟨.var "l", none⟩ .heldExclusive
    here.violations acquire ≠ [] ∧ (here.join empty).violations acquire = [] := by
  decide

end Env

end Custody
