import Custody.Contract.Binding
import Custody.Env.Check
import Custody.Proofs.Env.Lattice
import Custody.Proofs.Env.Queries

/-!
# Contracts that can be called

A contract that is accepted without a contradiction may still be one that no caller can
meet: the search for contradictions compares requirements with acquisitions and
exclusions, and looks at no release, while a call asks for a released capability to be
held, and in the released mode.

`callable_iff` says which of these contracts can be called, with parameters bound to
variables of their own. The proof goes through bound contracts, where what matters is
only which clauses name the same capability (`exists_accepts_iff`); distinct variables
keep distinct templates apart (`withVariables_injective`).

## Why parameters are bound to variables of their own

With one argument for two parameters, clauses come together that were about different
capabilities, and a call may fail for that. Whether the contract itself is at fault is
therefore asked for arguments that keep apart all that can be kept apart, and with which
every clause can be bound. `BoundApart` says what it takes.

## How the environment is found

If clauses that exclude each other name different capabilities, the environment can be
written down: what is released is held in its mode, what is only required is held
exclusively, and nothing else is held (`granted`). Exclusive is good enough for every
requirement. The environment is one that the operations build, so a caller can be in it.
-/

set_option autoImplicit false

namespace Custody

/-! ## When a call is accepted -/

namespace Env

section Checks

variable {env : Env} {callee : String} {clause : BoundClause}

theorem checkRequired_eq_none_iff :
    env.checkRequired callee clause = none ↔
      (env.state clause.inst.ref).satisfies clause.mode = true := by
  simp [checkRequired]

theorem checkExcluded_eq_none_iff :
    env.checkExcluded callee clause = none ↔ env.state clause.inst.ref = .notHeld := by
  simp [checkExcluded]

theorem checkReleased_eq_none_iff :
    env.checkReleased callee clause = none ↔
      env.state clause.inst.ref = .held clause.mode := by
  rw [← HeldState.mode?_eq_some_iff]
  unfold checkReleased
  cases hmode : (env.state clause.inst.ref).mode? <;> simp [hmode]

theorem checkAcquired_eq_none_iff :
    env.checkAcquired callee clause = none ↔ (env.state clause.inst.ref).mode? = none := by
  simp [checkAcquired]

end Checks

structure Accepts (env : Env) (contract : BoundContract) : Prop where
  required : ∀ clause ∈ contract.requires,
    (env.state clause.inst.ref).satisfies clause.mode = true
  excluded : ∀ clause ∈ contract.excludes, env.state clause.inst.ref = .notHeld
  released : ∀ clause ∈ contract.releases, env.state clause.inst.ref = .held clause.mode
  acquired : ∀ clause ∈ contract.acquires, (env.state clause.inst.ref).mode? = none

theorem violations_eq_nil_iff {env : Env} {contract : BoundContract} :
    env.violations contract = [] ↔ env.Accepts contract := by
  unfold violations
  simp only [List.append_eq_nil_iff, List.filterMap_eq_nil_iff, checkRequired_eq_none_iff,
    checkExcluded_eq_none_iff, checkReleased_eq_none_iff, checkAcquired_eq_none_iff]
  constructor
  · rintro ⟨⟨⟨hrequired, hexcluded⟩, hreleased⟩, hacquired⟩
    exact ⟨hrequired, hexcluded, hreleased, hacquired⟩
  · rintro ⟨hrequired, hexcluded, hreleased, hacquired⟩
    exact ⟨⟨⟨hrequired, hexcluded⟩, hreleased⟩, hacquired⟩

end Env

/-! ## Clauses that get in each other's way -/

theorem HeldState.mode?_ne_none_of_satisfies {state : HeldState} {mode : Mode}
    (h : state.satisfies mode = true) : state.mode? ≠ none := by
  intro hnone
  simp [satisfies, hnone] at h

namespace BoundContract

/-- Two clauses that no state of a capability meets do not name the same one.
Requirements never get in each other's way, since an exclusive hold meets all of
them. -/
structure Consistent (contract : BoundContract) : Prop where
  required_acquired :
    ∀ a ∈ contract.requires, ∀ b ∈ contract.acquires, a.inst.ref ≠ b.inst.ref
  required_excluded :
    ∀ a ∈ contract.requires, ∀ b ∈ contract.excludes, a.inst.ref ≠ b.inst.ref
  released_acquired :
    ∀ a ∈ contract.releases, ∀ b ∈ contract.acquires, a.inst.ref ≠ b.inst.ref
  released_excluded :
    ∀ a ∈ contract.releases, ∀ b ∈ contract.excludes, a.inst.ref ≠ b.inst.ref
  released_modes : ∀ a ∈ contract.releases, ∀ b ∈ contract.releases,
    a.inst.ref = b.inst.ref → a.mode = b.mode
  released_required :
    ∀ a ∈ contract.releases, ∀ b ∈ contract.requires, a.inst.ref = b.inst.ref →
    a.mode.satisfies b.mode = true

theorem consistent_of_accepts {env : Env} {contract : BoundContract}
    (h : env.Accepts contract) :
    contract.Consistent where
  required_acquired a ha b hb heq :=
    HeldState.mode?_ne_none_of_satisfies (h.required a ha) (heq ▸ h.acquired b hb)
  required_excluded a ha b hb heq := by
    have hheld := h.required a ha
    rw [heq, h.excluded b hb] at hheld
    cases hheld
  released_acquired a ha b hb heq := by
    have hnone := h.acquired b hb
    rw [← heq, h.released a ha, HeldState.mode?_eq_none_iff] at hnone
    simp at hnone
  released_excluded a ha b hb heq := by
    have hgone := h.excluded b hb
    rw [← heq, h.released a ha] at hgone
    exact HeldState.held_ne_notHeld _ hgone
  released_modes a ha b hb heq := by
    have hheld := h.released a ha
    rw [heq, h.released b hb] at hheld
    exact (HeldState.held_inj.1 hheld).symm
  released_required a ha b hb heq := by
    have hheld := h.required b hb
    rwa [← heq, h.released a ha, HeldState.satisfies_held] at hheld

/-- Holds for all that a contract asks to be held: what is released in the released
mode, the rest exclusively. Releases come second and overwrite requirements. -/
def granted (contract : BoundContract) : Env :=
  contract.releases.foldl (fun env clause => env.set clause.inst (.held clause.mode))
    (contract.requires.foldl (fun env clause => env.set clause.inst .heldExclusive) .empty)

theorem built_granted (contract : BoundContract) : contract.granted.Built := by
  have hfold : ∀ (new : BoundClause → HeldState) (clauses : List BoundClause) (env : Env),
      env.Built →
      (clauses.foldl (fun env clause => env.set clause.inst (new clause)) env).Built := by
    intro new clauses
    induction clauses with
    | nil => exact fun env h => h
    | cons clause rest ih => exact fun env h => ih _ (h.set clause.inst (new clause))
  exact hfold _ _ _ (hfold _ _ _ .empty)

theorem state_granted (contract : BoundContract) (ref : Ref) :
    (∃ clause ∈ contract.releases,
      clause.inst.ref = ref ∧ contract.granted.state ref = .held clause.mode) ∨
      (∀ clause ∈ contract.releases, clause.inst.ref ≠ ref) ∧
        ((∃ clause ∈ contract.requires,
          clause.inst.ref = ref ∧ contract.granted.state ref = .heldExclusive) ∨
          (∀ clause ∈ contract.requires, clause.inst.ref ≠ ref) ∧
          contract.granted.state ref = .notHeld) := by
  unfold granted
  rcases Env.state_foldl_set (·.inst.ref) (.held ·.mode) (fun env clause =>
    env.state_set clause.inst _)
    contract.releases _ ref with hreleased | ⟨hunreleased, hpassed⟩
  · exact .inl hreleased
  · rw [hpassed]
    exact .inr ⟨hunreleased, Env.state_foldl_set (·.inst.ref) (fun _ => .heldExclusive)
      (fun env clause => env.state_set clause.inst _) contract.requires .empty ref⟩

theorem Consistent.accepts_granted {contract : BoundContract} (h : contract.Consistent) :
    contract.granted.Accepts contract := by
  constructor
  · intro clause hclause
    rcases contract.state_granted clause.inst.ref with
      ⟨released, hreleased, heq, hstate⟩ | ⟨-, ⟨-, -, -, hstate⟩ | ⟨hnone, -⟩⟩
    · rw [hstate, HeldState.satisfies_held]
      exact h.released_required released hreleased clause hclause heq
    · rw [hstate]
      rfl
    · exact absurd rfl (hnone clause hclause)
  · intro clause hclause
    rcases contract.state_granted clause.inst.ref with
      ⟨released, hreleased, heq, -⟩ | ⟨-, ⟨required, hrequired, heq, -⟩ | ⟨-, hstate⟩⟩
    · exact absurd heq (h.released_excluded released hreleased clause hclause)
    · exact absurd heq (h.required_excluded required hrequired clause hclause)
    · exact hstate
  · intro clause hclause
    rcases contract.state_granted clause.inst.ref with
      ⟨released, hreleased, heq, hstate⟩ | ⟨hnone, -⟩
    · rw [hstate, h.released_modes released hreleased clause hclause heq]
    · exact absurd rfl (hnone clause hclause)
  · intro clause hclause
    rcases contract.state_granted clause.inst.ref with
      ⟨released, hreleased, heq, -⟩ | ⟨-, ⟨required, hrequired, heq, -⟩ | ⟨-, hstate⟩⟩
    · exact absurd heq (h.released_acquired released hreleased clause hclause)
    · exact absurd heq (h.required_acquired required hrequired clause hclause)
    · rw [hstate]
      rfl

theorem consistent_of_violations_eq_nil {env : Env} {contract : BoundContract}
    (h : env.violations contract = []) : contract.Consistent :=
  consistent_of_accepts (Env.violations_eq_nil_iff.1 h)

/-- **Which bound contracts can be called.** From left to right each pair of clauses is
looked at in the environment that accepts them; from right to left `granted` is that
environment. -/
theorem exists_accepts_iff {contract : BoundContract} :
    (∃ env : Env, env.Built ∧ env.violations contract = []) ↔ contract.Consistent := by
  constructor
  · rintro ⟨env, -, hnone⟩
    exact consistent_of_violations_eq_nil hnone
  · intro h
    exact ⟨contract.granted, contract.built_granted,
      Env.violations_eq_nil_iff.2 h.accepts_granted⟩

end BoundContract

/-! ## Parameters bound to variables -/

/-- Every parameter stands for a variable. -/
def onVariables (names : Nat → String) : Ref → Option Operand
  | .param index => some (.place (.var (names index)))
  | _ => none

namespace Ref

/-- A path that starts from a variable where it started from a parameter. -/
def withVariables (names : Nat → String) : Ref → Ref
  | param index => var (names index)
  | deref pointer => deref (withVariables names pointer)
  | field base name => field (withVariables names base) name
  | start => start

variable {names : Nat → String}

theorem bindRoot_onVariables (ref : Ref) :
    ref.bindRoot (onVariables names) = .ok (.place (ref.withVariables names)) := by
  induction ref with
  | global name | var name | self | param index => rfl
  | deref pointer ih =>
    simp [bindRoot, ih, withVariables, Operand.deref, bind, Except.bind, pure,
      Except.pure]
  | field base name ih =>
    simp [bindRoot, ih, withVariables, bind, Except.bind, pure, Except.pure]

theorem isTemplate_withVariables (ref : Ref) :
    (ref.withVariables names).isTemplate = false := by
  unfold isTemplate
  induction ref with
  | global name | var name | self | param index => rfl
  | deref pointer ih => exact ih
  | field base name ih => exact ih

/-- Distinct variables keep paths apart that do not start from one of them. A path that
does could be what a parameter is bound to. -/
theorem withVariables_injective (hnames : Function.Injective names) {a b : Ref}
    (ha : ∀ index, a.rootVariable? ≠ some (names index))
    (hb : ∀ index, b.rootVariable? ≠ some (names index))
    (h : a.withVariables names = b.withVariables names) : a = b := by
  induction a generalizing b with
  | global name | self | var name => cases b <;> simp_all [withVariables, rootVariable?]
  | param index =>
    cases b with
    | param other =>
      simp only [withVariables, var.injEq] at h
      rw [hnames h]
    | var name =>
      simp only [withVariables, var.injEq] at h
      exact absurd (congrArg some h.symm) (hb index)
    | global _ | self | deref _ | field _ _ => simp [withVariables] at h
  | deref pointer ih =>
    cases b with
    | deref other =>
      simp only [withVariables, deref.injEq] at h
      rw [ih (b := other) ha hb h]
    | global _ | self | var _ | param _ | field _ _ => simp [withVariables] at h
  | field base name ih =>
    cases b with
    | field other otherName =>
      simp only [withVariables, field.injEq] at h
      rw [ih (b := other) ha hb h.1, h.2]
    | global _ | self | var _ | param _ | deref _ => simp [withVariables] at h

end Ref

section Variables

variable {names : Nat → String}

def Clause.withVariables (names : Nat → String) (clause : Clause) : BoundClause :=
  ⟨⟨clause.template.withVariables names, clause.type⟩, clause.mode, clause.text⟩

theorem Clause.bind?_onVariables (clause : Clause) :
    clause.bind? (onVariables names) = some (clause.withVariables names) := by
  simp [bind?, Ref.instantiate, Ref.bindRoot_onVariables, Except.map, Operand.object,
    Ref.isTemplate_withVariables, Clause.withVariables]

theorem filterMap_bind?_onVariables (clauses : List Clause) :
    clauses.filterMap (·.bind? (onVariables names)) =
      clauses.map (·.withVariables names) := by
  rw [← List.filterMap_eq_map]
  exact List.filterMap_congr fun clause _ => clause.bind?_onVariables

theorem Clause.withVariables_mem {clause : Clause} {clauses : List Clause}
    (h : clause ∈ clauses) :
    clause.withVariables names ∈ clauses.filterMap (·.bind? (onVariables names)) := by
  rw [filterMap_bind?_onVariables]
  exact List.mem_map_of_mem h

namespace Contract

variable {contract : Contract}

/-- The clauses that are looked at where a function is called. Assertions and
try-acquires are not among them, so that they never keep a contract from being
called. -/
def demands (contract : Contract) : List Clause :=
  contract.requires ++ contract.excludes ++ contract.acquires ++ contract.releases

/-- Every parameter is bound to a variable of its own, that the contract does not name
otherwise. -/
structure BoundApart (contract : Contract) (names : Nat → String) : Prop where
  injective : Function.Injective names
  fresh : ∀ clause ∈ contract.demands, ∀ index,
    clause.template.rootVariable? ≠ some (names index)

theorem BoundApart.ref_eq_iff (h : contract.BoundApart names) {a b : Clause}
    (ha : a ∈ contract.demands) (hb : b ∈ contract.demands) :
    (a.withVariables names).inst.ref = (b.withVariables names).inst.ref ↔
      a.template = b.template :=
  ⟨Ref.withVariables_injective h.injective (h.fresh a ha) (h.fresh b hb),
    congrArg (Ref.withVariables names)⟩

/-- Pairs of bound clauses on one capability are pairs of clauses on one template. -/
theorem BoundApart.pairs_iff (h : contract.BoundApart names) {as bs : List Clause}
    (has : as ⊆ contract.demands) (hbs : bs ⊆ contract.demands)
    (P : Mode → Mode → Prop) :
    (∀ a ∈ as.filterMap (·.bind? (onVariables names)),
      ∀ b ∈ bs.filterMap (·.bind? (onVariables names)),
        a.inst.ref = b.inst.ref → P a.mode b.mode) ↔
      ∀ a ∈ as, ∀ b ∈ bs, a.template = b.template → P a.mode b.mode := by
  rw [filterMap_bind?_onVariables, filterMap_bind?_onVariables, List.forall_mem_map]
  refine forall₂_congr fun a ha => ?_
  rw [List.forall_mem_map]
  refine forall₂_congr fun b hb => ?_
  rw [h.ref_eq_iff (has ha) (hbs hb)]
  rfl

/-- Nothing contradicts a release: what is released is not excluded, is released in one
mode only, and that mode meets what is required of it besides. -/
structure ReleasesFit (contract : Contract) : Prop where
  excluded : ∀ a ∈ contract.releases, ∀ b ∈ contract.excludes, a.template ≠ b.template
  modes : ∀ a ∈ contract.releases, ∀ b ∈ contract.releases, a.template = b.template →
    a.mode = b.mode
  required : ∀ a ∈ contract.releases, ∀ b ∈ contract.requires, a.template = b.template →
    a.mode.satisfies b.mode = true

theorem apart_of_contradictions_eq_nil (h : contract.contradictions = []) :
    (∀ a ∈ contract.requires, ∀ b ∈ contract.acquires, a.template ≠ b.template) ∧
      ∀ a ∈ contract.requires, ∀ b ∈ contract.excludes, a.template ≠ b.template := by
  have hconflicts : ∀ a ∈ contract.requires, contract.conflictsWith a = [] := by
    simp only [contradictions, List.append_eq_nil_iff, List.flatMap_eq_nil_iff] at h
    exact h.1.1
  simp only [conflictsWith, List.append_eq_nil_iff, List.map_eq_nil_iff,
    List.filter_eq_nil_iff, decide_eq_true_eq] at hconflicts
  exact ⟨fun a ha b hb heq => (hconflicts a ha).1 b hb heq.symm,
    fun a ha b hb heq => (hconflicts a ha).2 b hb heq.symm⟩

/-- **Which contracts without a contradiction can be called.** Where nothing is both
released and acquired, exactly those whose releases fit: there is then an environment in
which the call is accepted, and otherwise there is none. -/
theorem callable_iff (hapart : contract.BoundApart names)
    (hnone : contract.contradictions = [])
    (hretake : ∀ a ∈ contract.releases, ∀ b ∈ contract.acquires,
      a.template ≠ b.template)
    (callee : String) :
    (∃ env : Env, env.Built ∧
      env.violations (contract.bind callee (onVariables names)) = []) ↔
      contract.ReleasesFit := by
  have hrequires : contract.requires ⊆ contract.demands := fun clause h => by
    simp [demands, h]
  have hexcludes : contract.excludes ⊆ contract.demands := fun clause h => by
    simp [demands, h]
  have hacquires : contract.acquires ⊆ contract.demands := fun clause h => by
    simp [demands, h]
  have hreleases : contract.releases ⊆ contract.demands := fun clause h => by
    simp [demands, h]
  -- Of the six conditions on pairs of bound clauses, three are those of `ReleasesFit`;
  -- the other three follow from the hypotheses.
  rw [BoundContract.exists_accepts_iff]
  constructor
  · intro h
    exact ⟨(hapart.pairs_iff hreleases hexcludes fun _ _ => False).1 h.released_excluded,
      (hapart.pairs_iff hreleases hreleases (· = ·)).1 h.released_modes,
      (hapart.pairs_iff hreleases hrequires (·.satisfies · = true)).1 h.released_required⟩
  · intro h
    obtain ⟨hacquired, hexcluded⟩ := apart_of_contradictions_eq_nil hnone
    exact ⟨(hapart.pairs_iff hrequires hacquires fun _ _ => False).2 hacquired,
      (hapart.pairs_iff hrequires hexcludes fun _ _ => False).2 hexcluded,
      (hapart.pairs_iff hreleases hacquires fun _ _ => False).2 hretake,
      (hapart.pairs_iff hreleases hexcludes fun _ _ => False).2 h.excluded,
      (hapart.pairs_iff hreleases hreleases (· = ·)).2 h.modes,
      (hapart.pairs_iff hreleases hrequires (·.satisfies · = true)).2 h.required⟩

def numbered (index : Nat) : String := String.ofList (List.replicate index 'p')

theorem numbered_injective : Function.Injective numbered := by
  intro a b h
  have hlength := congrArg (·.toList.length) h
  simpa [numbered] using hlength

/-- A contract about what two parameters point to, that asks for one of them as a
reader, gives it up as a writer and takes the other. -/
def handOff : Contract :=
  { requires := [⟨.deref (.param 0), ⟨0⟩, .shared, "__must_hold_shared(l)"⟩]
    releases := [⟨.deref (.param 0), ⟨0⟩, .exclusive, "__releases(l)"⟩]
    acquires := [⟨.deref (.param 1), ⟨0⟩, .exclusive, "__acquires(m)"⟩] }

theorem callable_iff_handOff :
    handOff.BoundApart numbered ∧ handOff.contradictions = [] ∧ handOff.ReleasesFit ∧
      ∃ env : Env, env.Built ∧
        env.violations (handOff.bind "hand_off" (onVariables numbered)) = [] := by
  have hapart : handOff.BoundApart numbered := by
    refine ⟨numbered_injective, fun clause hclause index => ?_⟩
    have hroot : ∀ clause ∈ handOff.demands, clause.template.rootVariable? = none := by
      decide
    rw [hroot clause hclause]
    intro h
    cases h
  have hfit : handOff.ReleasesFit := ⟨by decide, by decide, by decide⟩
  exact ⟨hapart, by decide, hfit,
    (callable_iff hapart (by decide) (by decide) "hand_off").2 hfit⟩

/-- **Contracts that nobody can call, and that contain no contradiction**: what is
released is excluded, or released in both modes, or required exclusively and released as
shared, or acquired. -/
theorem uncallable_without_contradiction :
    let clause (mode : Mode) (text : String) : Clause :=
      ⟨.deref (.param 0), ⟨0⟩, mode, text⟩
    let released := clause .exclusive "__releases(l)"
    let releasedShared := clause .shared "__releases_shared(l)"
    ∀ contract ∈ ([
        { releases := [released], excludes := [clause .exclusive "__must_not_hold(l)"] },
        { releases := [released, releasedShared] },
        { requires := [clause .exclusive "__must_hold(l)"], releases := [releasedShared] },
        { releases := [released], acquires := [clause .exclusive "__acquires(l)"] }] :
          List Contract),
      contract.contradictions = [] ∧
        ∀ names callee (env : Env),
        env.violations (contract.bind callee (onVariables names)) ≠ [] := by
  intro clause released releasedShared contract hcontract
  simp only [List.mem_cons, List.not_mem_nil, or_false] at hcontract
  -- Each contract breaks one of the conditions on releases, which no contradiction is
  -- about.
  rcases hcontract with rfl | rfl | rfl | rfl
  · refine ⟨by decide, fun names callee env hnone => ?_⟩
    have h := BoundContract.consistent_of_violations_eq_nil hnone
    exact h.released_excluded _ (Clause.withVariables_mem List.mem_cons_self) _
      (Clause.withVariables_mem List.mem_cons_self) rfl
  · refine ⟨by decide, fun names callee env hnone => ?_⟩
    have h := BoundContract.consistent_of_violations_eq_nil hnone
    have hmodes := h.released_modes _ (Clause.withVariables_mem List.mem_cons_self) _
      (Clause.withVariables_mem (List.mem_cons_of_mem _ List.mem_cons_self)) rfl
    cases hmodes
  · refine ⟨by decide, fun names callee env hnone => ?_⟩
    have h := BoundContract.consistent_of_violations_eq_nil hnone
    have hmode := h.released_required _ (Clause.withVariables_mem List.mem_cons_self) _
      (Clause.withVariables_mem List.mem_cons_self) rfl
    cases hmode
  · refine ⟨by decide, fun names callee env hnone => ?_⟩
    have h := BoundContract.consistent_of_violations_eq_nil hnone
    exact h.released_acquired _ (Clause.withVariables_mem List.mem_cons_self) _
      (Clause.withVariables_mem List.mem_cons_self) rfl

end Contract

end Variables

end Custody
