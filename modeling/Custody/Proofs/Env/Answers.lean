import Custody.Proofs.Env.Lattice

/-!
# Environments are what they answer

The iteration over a body ends when no entry environment changes, and a change is any
difference between two records. The same knowledge can be written down in more than one
way: that a capability is not held by no fact or by a fact that says so, that no attempt
waits on a local by no list or by an empty one. If an operation ever left one form and
then the other, the iteration would see a change where there is none.

`built_eq_iff` rules this out. No operation writes the redundant forms, and then two
environments are the same record exactly if they answer every question alike.

`AnswersLike` lists the questions that the analysis asks. It compares the lists of
attempts, and not only which attempts are in them: of two attempts on one capability the
last one counts, so their order is an answer too.
-/

set_option autoImplicit false

namespace Custody.Env

/-- Every question about capabilities, locals and regions has the same answer. These are
all the questions that checks and effects ask; how the answers are stored is left
out. -/
structure AnswersLike (a b : Env) : Prop where
  state : ∀ ref, a.state ref = b.state ref
  type? : ∀ ref, a.type? ref = b.type? ref
  isAsserted : ∀ ref, a.isAsserted ref = b.isAsserted ref
  attemptsOf : ∀ name, a.attemptsOf name = b.attemptsOf name
  binding : ∀ name, a.bindings.get? name = b.bindings.get? name
  constant : ∀ name, a.constants.get? name = b.constants.get? name
  suppression : a.suppression = b.suppression
  conflict : a.conflict = b.conflict

variable {a b : Env}

theorem AnswersLike.refl (env : Env) : env.AnswersLike env :=
  ⟨fun _ => rfl, fun _ => rfl, fun _ => rfl, fun _ => rfl, fun _ => rfl, fun _ => rfl,
    rfl, rfl⟩

theorem Canonical.get?_attempts {env : Env} (h : env.Canonical) (name : String) :
    env.attempts.get? name = if env.attemptsOf name = [] then none
      else some (env.attemptsOf name) := by
  unfold attemptsOf
  cases hlist : env.attempts.get? name with
  | none => simp
  | some list => simp [h.attempts hlist]

theorem asserted_eq_of_isAsserted (h : ∀ ref, a.isAsserted ref = b.isAsserted ref) :
    a.asserted = b.asserted := by
  refine FinMap.ext_get? fun ref => ?_
  have hcontains : (a.asserted.get? ref).isSome = (b.asserted.get? ref).isSome := h ref
  cases ha : a.asserted.get? ref <;> cases hb : b.asserted.get? ref
  · rfl
  · simp [ha, hb] at hcontains
  · simp [ha, hb] at hcontains
  · rfl

theorem AnswersLike.eq (h : a.AnswersLike b) (ha : a.Canonical) (hb : b.Canonical) :
    a = b := by
  have hattempts : a.attempts = b.attempts := by
    refine FinMap.ext_get? fun name => ?_
    rw [ha.get?_attempts, hb.get?_attempts, h.attemptsOf]
  exact ha.ext hb h.state h.type? (asserted_eq_of_isAsserted h.isAsserted) hattempts
    (FinMap.ext_get? h.binding) (FinMap.ext_get? h.constant) h.suppression h.conflict

/-- **Environments that the operations build are what they answer.** No fact says that
something is not held, no local has an empty list of attempts, and two of them are equal
exactly if no question tells them apart. -/
theorem built_eq_iff (ha : a.Built) (hb : b.Built) :
    a.Canonical ∧ b.Canonical ∧ (a = b ↔ a.AnswersLike b) := by
  have hca := ha.canonical
  have hcb := hb.canonical
  refine ⟨hca, hcb, fun h => ?_, fun h => h.eq hca hcb⟩
  subst h
  exact .refl a

/-- An attempt leaves a fact and a list behind, and the release after it takes both away
again: what is left is the empty environment, and not one that only answers like it. -/
theorem built_eq_iff_released :
    let lock : Instance := ⟨.var "a", some ⟨0⟩⟩
    let tried :=
      empty.apply
        { callee := "trylock", tryAcquires := [⟨⟨lock, .exclusive, "l"⟩, true⟩] }
        ⟨some "ok", none⟩
    let released :=
      tried.apply { callee := "unlock", releases := [⟨lock, .exclusive, "l"⟩] } {}
    tried.Built ∧ released.Built ∧ released.AnswersLike empty ∧
    ¬ tried.AnswersLike released := by
  intro lock tried released
  have htried : tried.Built := .apply .empty _ _
  have hreleased : released.Built := .apply htried _ _
  obtain ⟨-, -, hempty⟩ := built_eq_iff hreleased .empty
  obtain ⟨-, -, hdiffers⟩ := built_eq_iff htried hreleased
  refine ⟨htried, hreleased, hempty.1 (by decide), fun halike => ?_⟩
  have hne : tried ≠ released := by decide
  exact hne (hdiffers.2 halike)

end Custody.Env
