import Custody.Env.Basic
import Custody.Proofs.FinMap

/-!
# The order of environments

`Below a s` says that joining `a` to `s` changes nothing, and it is the order in which
the entry environments of blocks are compared. It is defined by the join itself, so
nothing about it can be read off: `below_iff_covers` is what opens it. An environment
absorbs another exactly when it knows less in every one of its seven parts, and then
transitivity is one line a part.

## Why canonical environments

A fact that says `notHeld` is a fact the join throws away together with its type. With
such facts `Below` is not transitive: the type that one join forgets, the next one
brings back. `Canonical` rules them out.

## Why two orders

`Below` does not see *which* type a fact has, only whether it has one, so two
environments can be below each other and differ. `Ascends` also keeps the types, and is
a partial order (`Ascends.antisymm`). A join moves along both.

Neither can do without the other. What flows into a block is compared by `Below`: it may
have another type than the entry environment, and is absorbed all the same. The changes
of one entry environment go along `Ascends`, and that the iteration ends rests on no
change being undone, which in a preorder could happen.
-/

set_option autoImplicit false

namespace Custody

namespace HeldState

@[simp] theorem join_self (a : HeldState) : a.join a = a := by simp [join]

theorem join_eq_notHeld_iff {a b : HeldState} :
    a.join b = .notHeld ↔ a = .notHeld ∧ b = .notHeld := by
  cases a <;> cases b <;> decide

theorem join_eq_left_iff {a b : HeldState} : a.join b = a ↔ a = b ∨ a = .unknown := by
  cases a <;> cases b <;> decide

theorem join_cases (a b : HeldState) : a.join b = a ∨ a.join b = .unknown := by
  cases a <;> cases b <;> decide

theorem join_cases_right (a b : HeldState) : a.join b = b ∨ a.join b = .unknown := by
  cases a <;> cases b <;> decide

@[simp] theorem held_ne_notHeld (mode : Mode) : held mode ≠ .notHeld := by
  cases mode <;> decide

@[simp] theorem held_ne_unknown (mode : Mode) : held mode ≠ .unknown := by
  cases mode <;> decide

@[simp] theorem held_inj {a b : Mode} : held a = held b ↔ a = b := by
  cases a <;> cases b <;> decide

theorem mode?_eq_none_iff {state : HeldState} :
    state.mode? = none ↔ state = .notHeld ∨ state = .unknown := by
  cases state <;> decide

theorem mode?_eq_some_iff {state : HeldState} {mode : Mode} :
    state.mode? = some mode ↔ state = held mode := by
  cases state <;> cases mode <;> decide

@[simp] theorem satisfies_held (a b : Mode) : (held a).satisfies b = a.satisfies b := by
  cases a <;> rfl

end HeldState

namespace Env

/-!
## Canonical environments

The two redundant forms of a record, both of them excluded. Every environment of the
analysis is canonical (`Built.canonical`, in `Proofs/Env/Lattice`).
-/

/-- No fact says that something is not held, and no local has an empty list of
attempts. -/
structure Canonical (env : Env) : Prop where
  held : ∀ {ref : Ref} {fact : Fact}, env.held.get? ref = some fact → fact.state ≠ .notHeld
  attempts : ∀ {name : String} {list : List Attempt},
    env.attempts.get? name = some list → list ≠ []

theorem canonical_empty : empty.Canonical := by
  constructor
  · intro ref fact h
    simp [empty] at h
  · intro name list h
    simp [empty] at h

theorem Canonical.get?_held {env : Env} (h : env.Canonical) (ref : Ref) :
    env.held.get? ref =
      if env.state ref = .notHeld then none else some ⟨env.state ref, env.type? ref⟩ := by
  unfold state type?
  cases hfact : env.held.get? ref with
  | none => simp
  | some fact => simp [h.held hfact]

theorem Canonical.type?_of_notHeld {env : Env} (h : env.Canonical) {ref : Ref}
    (hstate : env.state ref = .notHeld) : env.type? ref = none := by
  have hget := h.get?_held ref
  rw [if_pos hstate] at hget
  simp [type?, hget]

/-- **A canonical environment is what it answers.** A fact is known from its state and
its type, and there is one exactly where the state is not `notHeld`. -/
theorem Canonical.ext {a b : Env} (ha : a.Canonical) (hb : b.Canonical)
    (hstate : ∀ ref, a.state ref = b.state ref) (htype : ∀ ref, a.type? ref = b.type? ref)
    (hasserted : a.asserted = b.asserted) (hattempts : a.attempts = b.attempts)
    (hbindings : a.bindings = b.bindings) (hconstants : a.constants = b.constants)
    (hsuppression : a.suppression = b.suppression) (hconflict : a.conflict = b.conflict) :
    a = b := by
  have hheld : a.held = b.held := by
    refine FinMap.ext_get? fun ref => ?_
    rw [ha.get?_held, hb.get?_held, hstate, htype]
  cases a
  cases b
  simp_all

/-!
## What a join answers

States are joined one by one. Types are too, but only if both sides are canonical,
because a fact that is dropped takes its type along.
-/

@[simp] theorem state_join (a b : Env) (ref : Ref) :
    (a.join b).state ref = (a.state ref).join (b.state ref) := by
  unfold state join
  rw [FinMap.get?_merge (by decide), joinFacts]
  split
  · rename_i h
    rw [h]
    rfl
  · rfl

theorem get?_held_join (a b : Env) (ref : Ref) :
    (a.join b).held.get? ref = joinFacts (a.held.get? ref) (b.held.get? ref) :=
  FinMap.get?_merge (by decide) a.held b.held ref

theorem type?_join {a b : Env} (ha : a.Canonical) (hb : b.Canonical) (ref : Ref) :
    (a.join b).type? ref = (a.type? ref).or (b.type? ref) := by
  have hjoin := get?_held_join a b ref
  rw [joinFacts] at hjoin
  split at hjoin
  · rename_i h
    obtain ⟨hna, hnb⟩ := HeldState.join_eq_notHeld_iff.1 h
    rw [ha.type?_of_notHeld hna, hb.type?_of_notHeld hnb]
    simp [type?, hjoin]
  · simp [type?, hjoin]

theorem Canonical.join {a b : Env} (ha : a.Canonical) : (a.join b).Canonical := by
  constructor
  · intro ref fact h
    rw [get?_held_join, joinFacts] at h
    split at h
    · cases h
    · rename_i hne
      cases h
      exact hne
  · intro name list h
    exact ha.attempts (FinMap.agreeing_within_left _ _ name list h)

/-! ## The order -/

/-- `s` absorbs `a`: to join `a` to it changes nothing. This is what the iteration
tests, so that it is the order for which its result is a solution. -/
def Below (a s : Env) : Prop := s.join a = s

/-- `s` knows no more than `a`, part by part. A number of open regions that is not that
of `a` must have been noticed as a conflict. -/
structure Covers (s a : Env) : Prop where
  state : ∀ ref, s.state ref = a.state ref ∨ s.state ref = .unknown
  typed : ∀ ref, s.type? ref = none → a.type? ref = none
  asserted : s.asserted.Within a.asserted
  attempts : s.attempts.Within a.attempts
  bindings : s.bindings.Within a.bindings
  constants : s.constants.Within a.constants
  suppression : s.suppression ≤ a.suppression
  conflict : a.conflict = true ∨ s.suppression ≠ a.suppression → s.conflict = true

theorem covers_of_below {a s : Env} (ha : a.Canonical) (hs : s.Canonical) (h : a.Below s) :
    s.Covers a where
  state ref := by
    have hstate : (s.state ref).join (a.state ref) = s.state ref := by rw [← state_join, h]
    exact HeldState.join_eq_left_iff.1 hstate
  typed ref hnone := by
    have htype : (s.type? ref).or (a.type? ref) = s.type? ref := by
      rw [← type?_join hs ha, h]
    rw [hnone] at htype
    simpa using htype
  asserted := FinMap.agreeing_eq_left_iff.1 (congrArg Env.asserted h)
  attempts := FinMap.agreeing_eq_left_iff.1 (congrArg Env.attempts h)
  bindings := FinMap.agreeing_eq_left_iff.1 (congrArg Env.bindings h)
  constants := FinMap.agreeing_eq_left_iff.1 (congrArg Env.constants h)
  suppression := by
    have hmin : min s.suppression a.suppression = s.suppression :=
      congrArg Env.suppression h
    omega
  conflict := by
    have hor : (s.conflict || a.conflict || s.suppression != a.suppression) = s.conflict :=
      congrArg Env.conflict h
    rintro (hc | hne)
    · rw [← hor, hc]
      simp
    · rw [← hor, bne_iff_ne.2 hne]
      simp

theorem below_of_covers {a s : Env} (ha : a.Canonical) (hs : s.Canonical) (h : s.Covers a) :
    a.Below s := by
  refine hs.join.ext hs (fun ref => ?_) (fun ref => ?_)
    (FinMap.agreeing_eq_left_iff.2 h.asserted) (FinMap.agreeing_eq_left_iff.2 h.attempts)
    (FinMap.agreeing_eq_left_iff.2 h.bindings) (FinMap.agreeing_eq_left_iff.2 h.constants)
    (Nat.min_eq_left h.suppression) ?_
  · rw [state_join]
    exact HeldState.join_eq_left_iff.2 (h.state ref)
  · rw [type?_join hs ha]
    cases htype : s.type? ref with
    | none => simp [h.typed ref htype]
    | some type => rfl
  · show (s.conflict || a.conflict || s.suppression != a.suppression) = s.conflict
    by_cases hc : a.conflict = true ∨ s.suppression ≠ a.suppression
    · simp [h.conflict hc]
    · rw [not_or, not_not] at hc
      simp [hc.1, hc.2]

/-- **The order, opened.** Canonical environments are needed for the types, in both
directions. -/
theorem below_iff_covers {a s : Env} (ha : a.Canonical) (hs : s.Canonical) :
    a.Below s ↔ s.Covers a :=
  ⟨covers_of_below ha hs, below_of_covers ha hs⟩

theorem Covers.trans {a b c : Env} (hcb : c.Covers b) (hba : b.Covers a) : c.Covers a where
  state ref := by
    rcases hcb.state ref with hc | hc
    · rw [hc]
      exact hba.state ref
    · exact .inr hc
  typed ref h := hba.typed ref (hcb.typed ref h)
  asserted := hcb.asserted.trans hba.asserted
  attempts := hcb.attempts.trans hba.attempts
  bindings := hcb.bindings.trans hba.bindings
  constants := hcb.constants.trans hba.constants
  suppression := Nat.le_trans hcb.suppression hba.suppression
  conflict := by
    intro h
    by_cases hb : b.conflict = true
    · exact hcb.conflict (.inl hb)
    · -- No conflict was noticed in `b`, so `a` has none and the same depth: all is up
      -- to the step to `c`.
      have hsame : ¬ (a.conflict = true ∨ b.suppression ≠ a.suppression) :=
        fun h' => hb (hba.conflict h')
      rw [not_or, not_not] at hsame
      rcases h with hc | hne
      · exact absurd hc hsame.1
      · exact hcb.conflict (.inr (by rw [hsame.2]; exact hne))

theorem Below.trans {a b c : Env} (ha : a.Canonical) (hb : b.Canonical) (hc : c.Canonical)
    (hab : a.Below b) (hbc : b.Below c) : a.Below c :=
  below_of_covers ha hc ((covers_of_below hb hc hbc).trans (covers_of_below ha hb hab))

/-!
## Joins move up

On the left a join ascends, on the right it covers only: the type of the left side wins.
-/

/-- A join that changes the number of open regions, of either side, has noticed a
conflict. -/
theorem conflict_join {a b : Env}
    (h : (a.join b).suppression ≠ a.suppression ∨ (a.join b).suppression ≠ b.suppression) :
    (a.join b).conflict = true := by
  have hne : a.suppression ≠ b.suppression := by
    intro heq
    have hmin : (a.join b).suppression = b.suppression := by simp [join, heq]
    rcases h with h | h
    · exact h (hmin.trans heq.symm)
    · exact h hmin
  simp [join, hne]

theorem covers_join_right {a b : Env} (ha : a.Canonical) (hb : b.Canonical) :
    (a.join b).Covers b where
  state ref := by
    rw [state_join]
    exact HeldState.join_cases_right _ _
  typed ref h := by
    rw [type?_join ha hb, Option.or_eq_none_iff] at h
    exact h.2
  asserted := FinMap.agreeing_within_right _ _
  attempts := FinMap.agreeing_within_right _ _
  bindings := FinMap.agreeing_within_right _ _
  constants := FinMap.agreeing_within_right _ _
  suppression := Nat.min_le_right _ _
  conflict := by
    rintro (hc | hne)
    · simp [join, hc]
    · exact conflict_join (.inr hne)

theorem below_join_right {a b : Env} (ha : a.Canonical) (hb : b.Canonical) :
    b.Below (a.join b) :=
  below_of_covers hb ha.join (covers_join_right ha hb)

/-- An environment later in a run of joins: it covers the earlier one, and keeps the
types that were known. -/
structure Ascends (a b : Env) : Prop extends b.Covers a where
  type_kept : ∀ ref type, a.type? ref = some type → b.type? ref = some type

theorem Ascends.refl (a : Env) : a.Ascends a where
  state _ := .inl rfl
  typed _ h := h
  asserted := .refl _
  attempts := .refl _
  bindings := .refl _
  constants := .refl _
  suppression := Nat.le_refl _
  conflict := by
    rintro (hc | hne)
    · exact hc
    · exact absurd rfl hne
  type_kept _ _ h := h

theorem Ascends.trans {a b c : Env} (hab : a.Ascends b) (hbc : b.Ascends c) :
    a.Ascends c where
  toCovers := hbc.toCovers.trans hab.toCovers
  type_kept ref type h := hbc.type_kept ref type (hab.type_kept ref type h)

theorem ascends_join {a b : Env} (ha : a.Canonical) (hb : b.Canonical) :
    a.Ascends (a.join b) where
  state ref := by
    rw [state_join]
    exact HeldState.join_cases _ _
  typed ref h := by
    rw [type?_join ha hb, Option.or_eq_none_iff] at h
    exact h.1
  asserted := FinMap.agreeing_within_left _ _
  attempts := FinMap.agreeing_within_left _ _
  bindings := FinMap.agreeing_within_left _ _
  constants := FinMap.agreeing_within_left _ _
  suppression := Nat.min_le_left _ _
  conflict := by
    rintro (hc | hne)
    · simp [join, hc]
    · exact conflict_join (.inl hne)
  type_kept ref type h := by
    rw [type?_join ha hb, h]
    rfl

theorem Ascends.below {a b : Env} (ha : a.Canonical) (hb : b.Canonical) (h : a.Ascends b) :
    a.Below b :=
  below_of_covers ha hb h.toCovers

theorem Ascends.antisymm {a b : Env} (ha : a.Canonical) (hb : b.Canonical)
    (hab : a.Ascends b) (hba : b.Ascends a) : a = b := by
  refine ha.ext hb (fun ref => ?_) (fun ref => ?_) (hba.asserted.antisymm hab.asserted)
    (hba.attempts.antisymm hab.attempts) (hba.bindings.antisymm hab.bindings)
    (hba.constants.antisymm hab.constants)
    (Nat.le_antisymm hba.suppression hab.suppression) ?_
  · -- Where the later state is unknown, the earlier one is unknown or the same.
    rcases hab.state ref with h | h
    · exact h.symm
    · rcases hba.state ref with h' | h'
      · exact h'
      · rw [h, h']
  · exact Option.ext fun type => ⟨hab.type_kept ref type, hba.type_kept ref type⟩
  · exact Bool.eq_iff_iff.2 ⟨fun h => hab.conflict (.inl h), fun h => hba.conflict (.inl h)⟩

end Env

end Custody
