import Custody.Proofs.Contract.Callable
import Custody.Proofs.Env.Effects

/-!
# Calls in a straight line

Without branches there is nothing to merge, and without try-acquires and assertions
nothing to guess. What is held can then be kept in a plain book, `Holdings`: every
capability has a mode or none, and a contract is refused unless the book meets all its
clauses.

`straightLine_exact` says that the checks at calls are this book. The first call with a
violation is the first one that the book refuses, and up to there the two agree on every
capability. Pointers that may alias make it hard: a release of something that is not on
record would make all its aliases uncertain. It never comes to that. A release that
passes its check finds what it releases on record, also after the releases before it in
the same contract (`state_foldl_release_of_tracked`).

## Why up to the first violation

After a violation the two need not agree any more, and it would be wrong to ask for it.
The book has no way to go on from a contract that it refuses. The analysis does go on,
with effects that the contract states and the program may not have had.

So the statement is one about two machines that read the same inputs and stop at the
first one they refuse. `firstRefused?_eq` proves it for any two that are kept in step by
a relation; what is left is that accepting and stepping agree, for one contract.
-/

set_option autoImplicit false

namespace Custody

/-! ## Two machines in step -/

section InStep

variable {σ τ α : Type}

/-- The position of the first input that is not accepted, in the state that the inputs
before it lead to. -/
def firstRefused? (accepts : σ → α → Bool) (step : σ → α → σ) : σ → List α → Option Nat
  | _, [] => none
  | state, input :: rest =>
    if accepts state input
      then (firstRefused? accepts step (step state input) rest).map (· + 1) else some 0

/-- Two machines that accept the same in related states, and stay related when they do,
refuse the same input first, and are related until then. -/
theorem firstRefused?_eq {accepts : σ → α → Bool} {step : σ → α → σ}
    {accepts' : τ → α → Bool} {step' : τ → α → τ} {related : σ → τ → Prop}
    {inputs : List α}
    (haccepts : ∀ {a b}, ∀ input ∈ inputs, related a b →
      accepts a input = accepts' b input)
    (hstep : ∀ {a b}, ∀ input ∈ inputs, related a b → accepts a input = true →
      related (step a input) (step' b input))
    {a : σ} {b : τ} (h : related a b) :
    firstRefused? accepts step a inputs = firstRefused? accepts' step' b inputs ∧
      ∀ count, (∀ stop, firstRefused? accepts step a inputs = some stop → count ≤ stop) →
        related ((inputs.take count).foldl step a) ((inputs.take count).foldl step' b) := by
  induction inputs generalizing a b with
  | nil =>
    refine ⟨rfl, fun count _ => ?_⟩
    simpa using h
  | cons input rest ih =>
    have hsame := haccepts input List.mem_cons_self h
    cases hok : accepts a input with
    | false =>
      rw [hok] at hsame
      simp only [firstRefused?, hok, ← hsame, Bool.false_eq_true, if_false]
      refine ⟨trivial, fun count hcount => ?_⟩
      -- Refused at once: nothing has happened yet.
      cases Nat.le_zero.1 (hcount 0 rfl)
      exact h
    | true =>
      have hnext := hstep input List.mem_cons_self h hok
      obtain ⟨heq, hrelated⟩ := ih (fun x hx => haccepts x (List.mem_cons_of_mem _ hx))
        (fun x hx => hstep x (List.mem_cons_of_mem _ hx)) hnext
      rw [hok] at hsame
      simp only [firstRefused?, hok, ← hsame, if_true]
      refine ⟨by rw [heq], fun count hcount => ?_⟩
      cases count with
      | zero => exact h
      | succ count =>
        refine hrelated count fun stop hstop => ?_
        have hle := hcount (stop + 1) (by rw [hstop]; rfl)
        omega

end InStep

/-! ## The book -/

namespace HeldState

def ofMode? : Option Mode → HeldState
  | none => notHeld
  | some mode => held mode

@[simp] theorem ofMode?_eq_notHeld_iff {mode? : Option Mode} :
    ofMode? mode? = .notHeld ↔ mode? = none := by
  cases mode? <;> simp [ofMode?]

@[simp] theorem ofMode?_eq_held_iff {mode? : Option Mode} {mode : Mode} :
    ofMode? mode? = held mode ↔ mode? = some mode := by
  cases mode? with
  | none => cases mode <;> simp [ofMode?, held]
  | some other => simp [ofMode?]

@[simp] theorem mode?_ofMode? (mode? : Option Mode) : (ofMode? mode?).mode? = mode? := by
  cases mode? with
  | none => rfl
  | some mode => exact mode?_eq_some_iff.2 rfl

end HeldState

/-- What is held, and in which mode. There is no third case for what is uncertain. -/
def Holdings : Type := Ref → Option Mode

namespace Holdings

/-- All that a contract asks for is so: what it requires is held in a mode that is good
enough, what it excludes or acquires is not held, and what it releases is held in just
that mode. -/
def admits (holdings : Holdings) (contract : BoundContract) : Bool :=
  contract.requires.all (fun clause =>
    (holdings clause.inst.ref).any (·.satisfies clause.mode))
    && contract.excludes.all (fun clause => (holdings clause.inst.ref).isNone)
    && contract.releases.all (fun clause => holdings clause.inst.ref == some clause.mode)
    && contract.acquires.all (fun clause => (holdings clause.inst.ref).isNone)

/-- What is acquired is held, what is released is not, and the rest is as it was. An
acquisition comes after the releases, as in `Env.apply`. -/
def after (holdings : Holdings) (contract : BoundContract) : Holdings := fun ref =>
  match contract.acquires.find? (·.inst.ref = ref) with
  | some clause => some clause.mode
  | none => if ref ∈ contract.releases.map (·.inst.ref) then none else holdings ref

end Holdings

/-- A contract that only asks, acquires and releases, and no capability twice.
Try-acquires, assertions and releases that cannot be bound leave states that a book has
no entry for. -/
structure BoundContract.Definite (contract : BoundContract) : Prop where
  apart : contract.settled.Nodup
  tryAcquires : contract.tryAcquires = []
  asserts : contract.asserts = []
  unresolvedReleases : contract.unresolvedReleases = []

namespace BoundContract.Definite

variable {contract : BoundContract}

instance : Decidable contract.Definite :=
  decidable_of_iff (contract.settled.Nodup ∧ contract.tryAcquires = [] ∧
    contract.asserts = [] ∧
      contract.unresolvedReleases = [])
    ⟨fun ⟨ha, ht, hs, hu⟩ => ⟨ha, ht, hs, hu⟩, fun h =>
      ⟨h.apart, h.tryAcquires, h.asserts, h.unresolvedReleases⟩⟩

theorem apart_lists (h : contract.Definite) : (contract.releases.map (·.inst.ref)).Nodup ∧
    (contract.acquires.map (·.inst.ref)).Nodup ∧
      (contract.releases.map (·.inst.ref)).Disjoint
        (contract.acquires.map (·.inst.ref)) := by
  have hapart := h.apart
  rwa [settled, List.map_append, List.nodup_append'] at hapart

theorem not_acquired_of_released (h : contract.Definite) {clause : BoundClause}
    (hclause : clause ∈ contract.releases) :
    ∀ acquired ∈ contract.acquires, acquired.inst.ref ≠ clause.inst.ref := by
  intro acquired hacquired heq
  exact h.apart_lists.2.2 (List.mem_map_of_mem hclause)
    (heq ▸ List.mem_map_of_mem hacquired)

end BoundContract.Definite

namespace Holdings

variable {contract : BoundContract} (holdings : Holdings)

theorem after_acquired (h : contract.Definite) {clause : BoundClause}
    (hclause : clause ∈ contract.acquires) :
    holdings.after contract clause.inst.ref = some clause.mode := by
  have hfind : contract.acquires.find? (·.inst.ref = clause.inst.ref) = some clause := by
    rw [← List.head?_filter, filter_eq_singleton h.apart_lists.2.1 hclause]
    rfl
  simp only [after, hfind]

theorem after_of_not_acquired {ref : Ref}
    (hnone : ∀ clause ∈ contract.acquires, clause.inst.ref ≠ ref) :
    holdings.after contract ref = if ref ∈ contract.releases.map (·.inst.ref) then none
      else holdings ref := by
  have hfind : contract.acquires.find? (·.inst.ref = ref) = none := by
    rw [List.find?_eq_none]
    intro clause hclause
    simpa using hnone clause hclause
  simp only [after, hfind]

end Holdings

/-! ## The environment and the book -/

namespace Env

/-- An environment is what the book says, of every capability. In particular nothing in
it is uncertain. -/
structure Keeps (env : Env) (holdings : Holdings) : Prop where
  canonical : env.Canonical
  state : ∀ ref, env.state ref = .ofMode? (holdings ref)

def accepts (env : Env) (contract : BoundContract) : Bool :=
  (env.violations contract).isEmpty

theorem accepts_iff {env : Env} {contract : BoundContract} :
    env.accepts contract = true ↔ env.Accepts contract := by
  rw [accepts, List.isEmpty_iff, violations_eq_nil_iff]

theorem Keeps.accepts_eq {env : Env} {holdings : Holdings} (h : env.Keeps holdings)
    (contract : BoundContract) :
    env.accepts contract = holdings.admits contract := by
  have hsatisfies : ∀ clause : BoundClause,
      (env.state clause.inst.ref).satisfies clause.mode
      = (holdings clause.inst.ref).any (·.satisfies clause.mode) := by
    intro clause
    rw [h.state, HeldState.satisfies, HeldState.mode?_ofMode?]
  rw [Bool.eq_iff_iff, accepts_iff]
  simp only [Holdings.admits, Bool.and_eq_true, List.all_eq_true,
    Option.isNone_iff_eq_none, beq_iff_eq]
  constructor
  · rintro ⟨hrequired, hexcluded, hreleased, hacquired⟩
    simp only [hsatisfies] at hrequired
    simp only [h.state, HeldState.ofMode?_eq_notHeld_iff] at hexcluded
    simp only [h.state, HeldState.ofMode?_eq_held_iff] at hreleased
    simp only [h.state, HeldState.mode?_ofMode?] at hacquired
    exact ⟨⟨⟨hrequired, hexcluded⟩, hreleased⟩, hacquired⟩
  · rintro ⟨⟨⟨hrequired, hexcluded⟩, hreleased⟩, hacquired⟩
    constructor
    · simpa only [hsatisfies] using hrequired
    · simpa only [h.state, HeldState.ofMode?_eq_notHeld_iff] using hexcluded
    · simpa only [h.state, HeldState.ofMode?_eq_held_iff] using hreleased
    · simpa only [h.state, HeldState.mode?_ofMode?] using hacquired

/-- Releases of different capabilities, all of them on record, concern no other. A
release takes its own record away, and the others keep theirs, so each finds what it
looks for. -/
theorem state_foldl_release_of_tracked {releases : List BoundClause} {env : Env}
    (hcanonical : env.Canonical)
    (htracked : ∀ clause ∈ releases, env.state clause.inst.ref ≠ .notHeld)
    (hapart : (releases.map (·.inst.ref)).Nodup) (ref : Ref) :
    (releases.foldl (fun env clause => env.release clause.inst) env).state ref
      = if ref ∈ releases.map (·.inst.ref) then .notHeld else env.state ref := by
  induction releases generalizing env with
  | nil => simp
  | cons clause rest ih =>
    rw [List.map_cons, List.nodup_cons] at hapart
    obtain ⟨hfirst, hrest⟩ := List.forall_mem_cons.1 htracked
    have hcontains := hcanonical.tracked_iff.2 hfirst
    have hstate : ∀ other, (env.release clause.inst).state other
        = if other = clause.inst.ref then .notHeld else env.state other := by
      intro other
      rw [state_release]
      simp [Hits, hcontains]
    have hstill :
        ∀ later ∈ rest, (env.release clause.inst).state later.inst.ref ≠ .notHeld := by
      intro later hlater
      have hne : later.inst.ref ≠ clause.inst.ref := by
        intro heq
        exact hapart.1 (heq ▸ List.mem_map_of_mem hlater)
      rw [hstate, if_neg hne]
      exact hrest later hlater
    rw [List.foldl_cons,
      ih ((@evolves_release ∅ env clause.inst).canonical hcanonical) hstill hapart.2,
      hstate]
    by_cases href : ref = clause.inst.ref
    · simp [href]
    · simp [href]

/-- **One call.** A contract that is accepted leaves the environment and the book in
agreement. -/
theorem Keeps.apply {env : Env} {holdings : Holdings} (h : env.Keeps holdings)
    {contract : BoundContract} (hdefinite : contract.Definite)
    (haccepts : env.accepts contract = true) :
    (env.apply contract {}).Keeps (holdings.after contract) := by
  refine ⟨(evolves_apply env contract {}).canonical h.canonical, fun ref => ?_⟩
  have hreleases := state_foldl_release_of_tracked h.canonical
    (fun clause hclause => by rw [(accepts_iff.1 haccepts).released clause hclause]; simp)
    hdefinite.apart_lists.1 ref
  unfold Env.apply
  rw [hdefinite.tryAcquires, hdefinite.asserts, hdefinite.unresolvedReleases]
  simp only [List.foldl_nil]
  rcases state_foldl_set (·.inst.ref) (.held ·.mode)
      (fun env clause => env.state_acquire clause.inst clause.mode) contract.acquires
      (contract.releases.foldl (fun env clause => env.release clause.inst) env) ref with
    ⟨clause, hclause, rfl, hstate⟩ | ⟨hnone, hstate⟩
  · rw [hstate, holdings.after_acquired hdefinite hclause]
    rfl
  · rw [hstate, hreleases, holdings.after_of_not_acquired hnone, h.state]
    split <;> rfl

theorem keeps_empty : Env.empty.Keeps fun _ => none :=
  ⟨canonical_empty, fun _ => rfl⟩

/-- What is known after calls, each of which has the effects that its contract
states. -/
def through (env : Env) (contracts : List BoundContract) : Env :=
  contracts.foldl (fun env contract => env.apply contract {}) env

def firstViolated? (contracts : List BoundContract) : Option Nat :=
  firstRefused? accepts (fun env contract => env.apply contract {}) .empty contracts

end Env

namespace Holdings

def through (holdings : Holdings) (contracts : List BoundContract) : Holdings :=
  contracts.foldl after holdings

/-- The position of the first contract that the book refuses, where it is empty at
first. -/
def firstRejected? (contracts : List BoundContract) : Option Nat :=
  firstRefused? admits after (fun _ => none) contracts

end Holdings

/-! ## Balanced sequences -/

inductive Transfer where
  | taken (mode : Mode)
  | returned (mode : Mode)
deriving DecidableEq, Repr

/-- By turns taken and returned, in the same mode, until nothing is left to return. -/
def Transfer.paired : List Transfer → Bool
  | [] => true
  | .taken mode :: .returned mode' :: rest => mode == mode' && paired rest
  | _ => false

namespace BoundContract

/-- What a contract does with one capability, in order: it returns before it takes. -/
def transfers (contract : BoundContract) (ref : Ref) : List Transfer :=
  (contract.releases.filter (·.inst.ref = ref)).map (.returned ·.mode)
    ++ (contract.acquires.filter (·.inst.ref = ref)).map (.taken ·.mode)

/-- The contracts only acquire and release, every capability by turns and in the same
mode, and all is released in the end. -/
structure Balanced (contracts : List BoundContract) : Prop where
  requires : ∀ contract ∈ contracts, contract.requires = []
  excludes : ∀ contract ∈ contracts, contract.excludes = []
  paired : ∀ ref, Transfer.paired (contracts.flatMap (·.transfers ref)) = true

variable {contract : BoundContract} {ref : Ref}

theorem filter_eq_nil {clauses : List BoundClause}
    (h : ∀ clause ∈ clauses, clause.inst.ref ≠ ref) :
    clauses.filter (·.inst.ref = ref) = [] := by
  rw [List.filter_eq_nil_iff]
  intro clause hclause
  simpa using h clause hclause

theorem transfers_eq_nil
    (hacquires : ∀ clause ∈ contract.acquires, clause.inst.ref ≠ ref)
    (hreleases : ∀ clause ∈ contract.releases, clause.inst.ref ≠ ref) :
    contract.transfers ref = [] := by
  simp [transfers, filter_eq_nil hacquires, filter_eq_nil hreleases]

namespace Definite

theorem transfers_acquired (h : contract.Definite) {clause : BoundClause}
    (hclause : clause ∈ contract.acquires) :
    contract.transfers clause.inst.ref = [.taken clause.mode] := by
  have hnone : ∀ released ∈ contract.releases, released.inst.ref ≠ clause.inst.ref := by
    intro released hreleased heq
    exact h.not_acquired_of_released hreleased clause hclause heq.symm
  simp [transfers, filter_eq_nil hnone, filter_eq_singleton h.apart_lists.2.1 hclause]

theorem transfers_released (h : contract.Definite) {clause : BoundClause}
    (hclause : clause ∈ contract.releases) :
    contract.transfers clause.inst.ref = [.returned clause.mode] := by
  simp [transfers, filter_eq_nil (h.not_acquired_of_released hclause),
    filter_eq_singleton h.apart_lists.1 hclause]

end Definite

end BoundContract

namespace Holdings

variable {holdings : Holdings} {contract : BoundContract} {rest : List BoundContract}

/-- What is held now, and what the contracts to come do, is balanced. What is held
counts as taken before all of them, so that this is kept from one contract to the
next. -/
def Awaits (holdings : Holdings) (contracts : List BoundContract) : Prop :=
  ∀ ref, Transfer.paired
    ((holdings ref).toList.map .taken ++ contracts.flatMap (·.transfers ref)) = true

theorem Awaits.acquired (h : holdings.Awaits (contract :: rest))
    (hdefinite : contract.Definite) {clause : BoundClause}
    (hclause : clause ∈ contract.acquires) :
    holdings clause.inst.ref = none ∧
      Transfer.paired
        (.taken clause.mode :: rest.flatMap (·.transfers clause.inst.ref)) = true := by
  have hpaired := h clause.inst.ref
  rw [List.flatMap_cons, hdefinite.transfers_acquired hclause] at hpaired
  cases hmode : holdings clause.inst.ref with
  | none =>
    rw [hmode] at hpaired
    exact ⟨rfl, hpaired⟩
  | some mode =>
    rw [hmode] at hpaired
    cases hpaired

theorem Awaits.released (h : holdings.Awaits (contract :: rest))
    (hdefinite : contract.Definite) {clause : BoundClause}
    (hclause : clause ∈ contract.releases) :
    holdings clause.inst.ref = some clause.mode ∧
      Transfer.paired (rest.flatMap (·.transfers clause.inst.ref)) = true := by
  have hpaired := h clause.inst.ref
  rw [List.flatMap_cons, hdefinite.transfers_released hclause] at hpaired
  cases hmode : holdings clause.inst.ref with
  | none =>
    rw [hmode] at hpaired
    cases hpaired
  | some mode =>
    rw [hmode] at hpaired
    have hboth :
        (mode == clause.mode &&
          Transfer.paired (rest.flatMap (·.transfers clause.inst.ref))) = true := hpaired
    rw [Bool.and_eq_true, beq_iff_eq] at hboth
    exact ⟨by rw [hboth.1], hboth.2⟩

theorem Awaits.after (h : holdings.Awaits (contract :: rest))
    (hdefinite : contract.Definite) :
    (holdings.after contract).Awaits rest := by
  intro ref
  by_cases hacquired : ∃ clause ∈ contract.acquires, clause.inst.ref = ref
  · obtain ⟨clause, hclause, rfl⟩ := hacquired
    rw [holdings.after_acquired hdefinite hclause]
    exact (h.acquired hdefinite hclause).2
  · have hnone : ∀ clause ∈ contract.acquires, clause.inst.ref ≠ ref :=
      fun clause hclause heq => hacquired ⟨clause, hclause, heq⟩
    rw [holdings.after_of_not_acquired hnone]
    by_cases hreleased : ref ∈ contract.releases.map (·.inst.ref)
    · obtain ⟨clause, hclause, rfl⟩ := List.mem_map.1 hreleased
      rw [if_pos hreleased]
      exact (h.released hdefinite hclause).2
    · rw [if_neg hreleased]
      have huntouched := BoundContract.transfers_eq_nil hnone fun clause hclause heq =>
        hreleased (List.mem_map.2 ⟨clause, hclause, heq⟩)
      simpa [huntouched] using h ref

theorem Awaits.admits (h : holdings.Awaits (contract :: rest))
    (hdefinite : contract.Definite) (hrequires : contract.requires = [])
    (hexcludes : contract.excludes = []) : holdings.admits contract = true := by
  simp only [Holdings.admits, hrequires, hexcludes, Bool.and_eq_true, List.all_eq_true,
    List.not_mem_nil,
    false_imp_iff, implies_true, true_and, Option.isNone_iff_eq_none, beq_iff_eq]
  constructor
  · intro clause hclause
    exact (h.released hdefinite hclause).1
  · intro clause hclause
    exact (h.acquired hdefinite hclause).1

theorem Awaits.run {contracts : List BoundContract} (h : holdings.Awaits contracts)
    (hdefinite : ∀ contract ∈ contracts, contract.Definite)
    (hrequires : ∀ contract ∈ contracts, contract.requires = [])
    (hexcludes : ∀ contract ∈ contracts, contract.excludes = []) :
    firstRefused? Holdings.admits Holdings.after holdings contracts = none ∧
      ∀ ref, holdings.through contracts ref = none := by
  induction contracts generalizing holdings with
  | nil =>
    refine ⟨rfl, fun ref => ?_⟩
    have hpaired := h ref
    cases hmode : holdings ref with
    | none => exact hmode
    | some mode =>
      rw [hmode] at hpaired
      cases hpaired
  | cons contract rest ih =>
    rw [List.forall_mem_cons] at hdefinite hrequires hexcludes
    obtain ⟨hnone, hend⟩ := ih (h.after hdefinite.1) hdefinite.2 hrequires.2 hexcludes.2
    refine ⟨?_, hend⟩
    rw [firstRefused?, if_pos (h.admits hdefinite.1 hrequires.1 hexcludes.1), hnone]
    rfl

end Holdings

/-! ## Checks along a line -/

namespace Env

variable {contracts : List BoundContract}

theorem keeps_until_violated (hdefinite : ∀ contract ∈ contracts, contract.Definite) :
    firstViolated? contracts = Holdings.firstRejected? contracts ∧
      ∀ count, (∀ stop, firstViolated? contracts = some stop → count ≤ stop) →
        (empty.through (contracts.take count)).Keeps
          (Holdings.through (fun _ => none) (contracts.take count)) :=
  firstRefused?_eq (fun contract _ h => h.accepts_eq contract)
    (fun contract hmem h haccepts => h.apply (hdefinite contract hmem) haccepts) keeps_empty

/-- **Along a straight line the checks are exact.** The first call with a violation is
the first one that the book refuses; before that every capability is in the state that
the book says; and a balanced sequence has no violation, and leaves nothing held. -/
theorem straightLine_exact (hdefinite : ∀ contract ∈ contracts, contract.Definite) :
    firstViolated? contracts = Holdings.firstRejected? contracts ∧
      (∀ count, (∀ stop, Holdings.firstRejected? contracts = some stop → count ≤ stop) →
        ∀ ref, (empty.through (contracts.take count)).state ref
          = .ofMode? (Holdings.through (fun _ => none) (contracts.take count) ref)) ∧
      (BoundContract.Balanced contracts →
        firstViolated? contracts = none ∧
          ∀ ref, (empty.through contracts).state ref = .notHeld) := by
  obtain ⟨heq, hkeeps⟩ := keeps_until_violated hdefinite
  refine ⟨heq, fun count hcount => (hkeeps count fun stop hstop => ?_).state,
    fun hbalanced => ?_⟩
  · rw [heq] at hstop
    exact hcount stop hstop
  · have hawaits : Holdings.Awaits (fun _ => none) contracts := hbalanced.paired
    obtain ⟨hnone, hend⟩ := hawaits.run hdefinite hbalanced.requires hbalanced.excludes
    have hnever : firstViolated? contracts = none := heq.trans hnone
    have hlast := hkeeps contracts.length fun stop hstop => by
      rw [hnever] at hstop
      cases hstop
    rw [List.take_length] at hlast
    refine ⟨hnever, fun ref => ?_⟩
    rw [hlast.state, HeldState.ofMode?_eq_notHeld_iff]
    exact hend ref

/-- A lock and what a pointer leads to, which may be the lock: taken together and given
back together, and then given back once more. -/
theorem straightLine_exact_alias :
    let lock : Instance := ⟨.var "a", some ⟨0⟩⟩
    let target : Instance := ⟨.deref (.var "p"), some ⟨0⟩⟩
    let take : BoundContract :=
      { callee := "take", acquires := [⟨lock, .exclusive, "l"⟩, ⟨target, .shared, "p"⟩] }
    let give : BoundContract :=
      { callee := "give", releases := [⟨target, .shared, "p"⟩, ⟨lock, .exclusive, "l"⟩] }
    lock.mayAlias target = true ∧ (∀ contract ∈ [take, give, give], contract.Definite) ∧
      firstViolated? [take, give, give] = some 2 ∧
      (empty.through [take]).state lock.ref = .heldExclusive ∧
      (empty.through [take]).state target.ref = .heldShared ∧
      BoundContract.Balanced [take, give] ∧ firstViolated? [take, give] = none ∧
      ∀ ref, (empty.through [take, give]).state ref = .notHeld := by
  intro lock target take give
  have hdefinite : ∀ contract ∈ [take, give, give], contract.Definite := by decide
  obtain ⟨hfirst, hstates, -⟩ := straightLine_exact hdefinite
  have hrejected : Holdings.firstRejected? [take, give, give] = some 2 := by decide
  have hone : ∀ stop, Holdings.firstRejected? [take, give, give] = some stop →
      1 ≤ stop := by
    intro stop hstop
    rw [hrejected] at hstop
    cases hstop
    decide
  have hbalanced : BoundContract.Balanced [take, give] := by
    refine ⟨by decide, by decide, fun ref => ?_⟩
    by_cases hlock : lock.ref = ref
    · subst hlock
      decide
    · by_cases htarget : target.ref = ref
      · subst htarget
        decide
      · simp [BoundContract.transfers, take, give, hlock, htarget, Transfer.paired]
  have hdefinite' : ∀ contract ∈ [take, give], contract.Definite := by decide
  obtain ⟨-, -, hclean⟩ := straightLine_exact hdefinite'
  exact ⟨by decide, hdefinite, hfirst.trans hrejected, hstates 1 hone lock.ref,
    hstates 1 hone target.ref, hbalanced, hclean hbalanced⟩

end Env

end Custody
