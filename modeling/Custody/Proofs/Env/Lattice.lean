import Custody.Proofs.Env.Evolution

/-!
# Joins as least upper bounds

The analysis stops when joins change nothing any more, so it stands and falls with the
laws of the join. This module proves them of every environment that the operations can
build (`Built`), as equations between environments: `join_laws`.

The one part of an environment that spoils symmetry is the types on record, of which the
join keeps the left one. Idempotence and associativity do not mind. Two environments
commute exactly if they do not record different types for the same capability
(`join_comm_iff`), and otherwise `a.join b` and `b.join a` are two least upper bounds of
which each is below the other.

## Why built environments

The laws fail for the record as such. A fact that says `notHeld` is dropped by every
join, so an environment with such a fact is not its own join. No operation leaves one
behind (`Built.canonical`).
-/

set_option autoImplicit false

namespace Custody

namespace HeldState

theorem join_comm (a b : HeldState) : a.join b = b.join a := by
  cases a <;> cases b <;> rfl

theorem join_assoc (a b c : HeldState) : (a.join b).join c = a.join (b.join c) := by
  cases a <;> cases b <;> cases c <;> rfl

end HeldState

namespace Env

/-! ## Built environments -/

/-- The environments that the operations build from the empty one. It has more of them
than an analysis comes by, as any contract may be applied anywhere. -/
inductive Built : Env → Prop
  | empty : Built empty
  | set {env : Env} (h : Built env) (inst : Instance) (state : HeldState) :
      Built (env.set inst state)
  | bind {env : Env} (h : Built env) (name : String) (target : Ref) :
      Built (env.bind name target)
  | setConstant {env : Env} (h : Built env) (name : String) (value : Bool) :
      Built (env.setConstant name value)
  | copyLocal {env : Env} (h : Built env) (target source : String) :
      Built (env.copyLocal target source)
  | rebind {env : Env} (h : Built env) (name : String) : Built (env.rebind name)
  | enterRegion {env : Env} (h : Built env) : Built env.enterRegion
  | leaveRegion {env after : Env} (h : Built env)
      (hleave : env.leaveRegion? = some after) : Built after
  | restoreRegions {env : Env} (h : Built env) (depth : Nat) :
      Built (env.restoreRegions depth)
  | join {a b : Env} (ha : Built a) (hb : Built b) : Built (a.join b)
  | refine {env : Env} (h : Built env) (name : String) (truth : Bool) :
      Built (env.refine name truth)
  | apply {env : Env} (h : Built env) (contract : BoundContract) (result : CallResult) :
      Built (env.apply contract result)

theorem leaveRegion?_eq_some {env after : Env} (h : env.leaveRegion? = some after) :
    after = { env with suppression := after.suppression } := by
  unfold leaveRegion? at h
  split at h
  · cases h
  · cases h
    rfl

theorem Built.canonical {env : Env} (h : env.Built) : env.Canonical := by
  induction h with
  | empty => exact canonical_empty
  | set _ inst state ih => exact (evolves_set _ inst state).canonical ih
  | bind _ name target ih => exact ⟨ih.held, ih.attempts⟩
  | setConstant _ name value ih => exact ⟨ih.held, ih.attempts⟩
  | copyLocal _ target source ih =>
    exact (@evolves_copyLocal ∅ _ target source).canonical ih
  | rebind _ name ih => exact (@evolves_rebind ∅ _ name).canonical ih
  | enterRegion _ ih => exact ⟨ih.held, ih.attempts⟩
  | leaveRegion _ hleave ih =>
    rw [leaveRegion?_eq_some hleave]
    exact ⟨ih.held, ih.attempts⟩
  | restoreRegions _ depth ih => exact ⟨ih.held, ih.attempts⟩
  | join _ _ iha _ => exact iha.join
  | refine _ name truth ih => exact (@evolves_refine ∅ _ name truth).canonical ih
  | apply _ contract result ih => exact (evolves_apply _ contract result).canonical ih

/-! ## The laws -/

variable {a b c : Env}

theorem join_self (ha : a.Canonical) : a.join a = a := by
  refine ha.join.ext ha (fun ref => ?_) (fun ref => ?_) (FinMap.agreeing_self _)
    (FinMap.agreeing_self _)
    (FinMap.agreeing_self _) (FinMap.agreeing_self _) (Nat.min_self _) ?_
  · simp
  · rw [type?_join ha ha]
    cases a.type? ref <;> rfl
  · show (a.conflict || a.conflict || a.suppression != a.suppression) = a.conflict
    simp

/-- Three environments have met in conflict if one of them had before, or their numbers
of open regions are not all the same. -/
theorem conflict_join_assoc (a b c : Env) :
    ((a.join b).join c).conflict = (a.join (b.join c)).conflict := by
  show (a.conflict || b.conflict || a.suppression != b.suppression || c.conflict
      || min a.suppression b.suppression != c.suppression)
    = (a.conflict || (b.conflict || c.conflict || b.suppression != c.suppression)
      || a.suppression != min b.suppression c.suppression)
  have hdepth :
      (a.suppression ≠ b.suppression ∨
          min a.suppression b.suppression ≠ c.suppression) ↔
        (b.suppression ≠ c.suppression ∨
          a.suppression ≠ min b.suppression c.suppression) := by
    omega
  rw [Bool.eq_iff_iff]
  simp only [Bool.or_eq_true, bne_iff_ne]
  tauto

theorem join_assoc (ha : a.Canonical) (hb : b.Canonical) (hc : c.Canonical) :
    (a.join b).join c = a.join (b.join c) := by
  refine ha.join.join.ext ha.join (fun ref => ?_) (fun ref => ?_)
    (FinMap.agreeing_assoc _ _ _) (FinMap.agreeing_assoc _ _ _)
    (FinMap.agreeing_assoc _ _ _) (FinMap.agreeing_assoc _ _ _)
    (Nat.min_assoc _ _ _) (conflict_join_assoc a b c)
  · simp only [state_join, HeldState.join_assoc]
  · rw [type?_join ha.join hc, type?_join ha hb, type?_join ha hb.join,
      type?_join hb hc, Option.or_assoc]

/-- All but the types on record is the same. Types are where a join is not commutative:
the first one that is known is kept. -/
structure EqUpToTypes (a b : Env) : Prop where
  state : ∀ ref, a.state ref = b.state ref
  asserted : a.asserted = b.asserted
  attempts : a.attempts = b.attempts
  bindings : a.bindings = b.bindings
  constants : a.constants = b.constants
  suppression : a.suppression = b.suppression
  conflict : a.conflict = b.conflict

theorem join_comm_upToTypes (a b : Env) : (a.join b).EqUpToTypes (b.join a) where
  state ref := by rw [state_join, state_join, HeldState.join_comm]
  asserted := FinMap.agreeing_comm _ _
  attempts := FinMap.agreeing_comm _ _
  bindings := FinMap.agreeing_comm _ _
  constants := FinMap.agreeing_comm _ _
  suppression := Nat.min_comm _ _
  conflict := by
    show (a.conflict || b.conflict || a.suppression != b.suppression)
      = (b.conflict || a.conflict || b.suppression != a.suppression)
    rw [Bool.or_comm a.conflict, bne_comm]

def TypesAgree (a b : Env) : Prop :=
  ∀ ref x y, a.type? ref = some x → b.type? ref = some y → x = y

/-- **When two environments commute.** A type that one side has and the other has not is
no obstacle: the join has it either way. -/
theorem join_comm_iff (ha : a.Canonical) (hb : b.Canonical) :
    a.join b = b.join a ↔ a.TypesAgree b := by
  constructor
  · intro h ref x y hx hy
    have htype : (a.join b).type? ref = (b.join a).type? ref := by rw [h]
    rw [type?_join ha hb, type?_join hb ha, hx, hy] at htype
    exact Option.some.inj htype
  · intro h
    have hsame := join_comm_upToTypes a b
    refine ha.join.ext hb.join hsame.state (fun ref => ?_)
      hsame.asserted hsame.attempts hsame.bindings
      hsame.constants hsame.suppression hsame.conflict
    rw [type?_join ha hb, type?_join hb ha]
    cases hx : a.type? ref with
    | none => cases b.type? ref <;> rfl
    | some x =>
      cases hy : b.type? ref with
      | none => rfl
      | some y => exact congrArg some (h ref x y hx hy)

/-! ## Least upper bounds -/

theorem below_join_left (ha : a.Canonical) (hb : b.Canonical) : a.Below (a.join b) :=
  (ascends_join ha hb).below ha ha.join

theorem join_below (ha : a.Canonical) (hb : b.Canonical) (hc : c.Canonical)
    (hac : a.Below c) (hbc : b.Below c) : (a.join b).Below c :=
  calc c.join (a.join b)
    _ = (c.join a).join b := (join_assoc hc ha hb).symm
    _ = c.join b := by rw [hac]
    _ = c := hbc

/-- **The laws of the join.** It is idempotent and associative, types included. It
commutes in all but the types, and in these too exactly if the two sides record no
different ones. `Below` is therefore reflexive and transitive, and a join is a least
upper bound for it. -/
theorem join_laws (ha : a.Built) (hb : b.Built) (hc : c.Built) :
    a.join a = a ∧ (a.join b).join c = a.join (b.join c) ∧
      (a.join b = b.join a ↔ a.TypesAgree b) ∧ (a.join b).EqUpToTypes (b.join a) ∧
      a.Below a ∧ (a.Below b → b.Below c → a.Below c) ∧
      a.Below (a.join b) ∧ b.Below (a.join b) ∧
      (a.Below c → b.Below c → (a.join b).Below c) := by
  have ha := ha.canonical
  have hb := hb.canonical
  have hc := hc.canonical
  exact ⟨join_self ha, join_assoc ha hb hc, join_comm_iff ha hb,
    join_comm_upToTypes a b, join_self ha,
    Below.trans ha hb hc, below_join_left ha hb, below_join_right ha hb,
    join_below ha hb hc⟩

/-- Two paths on which one capability is held, under different types and at different
depths. Their two joins differ, and each absorbs the other. -/
theorem join_laws_of_two_types :
    let here := empty.set ⟨.var "a", some ⟨0⟩⟩ .heldExclusive
    let there := (empty.set ⟨.var "a", some ⟨1⟩⟩ .heldShared).enterRegion
    here.Built ∧ there.Built ∧ here.join there ≠ there.join here ∧
      (here.join there).Below (there.join here) ∧
      (there.join here).Below (here.join there) ∧
      ((here.join there).join (there.join here)).state (.var "a") = .unknown := by
  intro here there
  have hhere : here.Built := .set .empty _ _
  have hthere : there.Built := .enterRegion (.set .empty _ _)
  obtain ⟨-, -, hcomm, -, -, -, hleft, hright, hleast⟩ :=
    join_laws hhere hthere (hthere.join hhere)
  obtain ⟨-, -, -, -, -, -, hleft', hright', hleast'⟩ :=
    join_laws hthere hhere (hhere.join hthere)
  refine ⟨hhere, hthere, ?_, hleast hright' hleft', hleast' hright hleft, by decide⟩
  rw [Ne, hcomm]
  intro hagree
  have htypes := hagree (.var "a") ⟨0⟩ ⟨1⟩ rfl rfl
  cases htypes

end Env

end Custody
