import Custody.Flow.Fixpoint
import Custody.Proofs.FinMap
import Mathlib.Logic.Relation

/-!
# The iteration, one flow at a time

`Progress.iterate` is a loop over visits, with a limit on the changes and a bound on the
visits. Neither belongs to the algorithm: they only decide when to give up. This file
takes them away. `Moment.next` is the bare iteration, in steps as small as they come:
either one state that a block sent on is received, or the first block that waits is
taken and run. A run is `Leads`, any number of such steps.

What the loop computes is then said by two theorems:

* `leads_of_iterate` — where the loop succeeds, the bare iteration gets to the same end,
  and no entry state has changed more often than the limit allows;
* `iterate_of_leads` — where the bare iteration ends within the limit, the loop gets
  there too, as long as it may make as many visits.

Invariants are proved of `Moment.next`. Only `Proofs/Flow/Translation`, which compares
two loops with their limits, opens `Progress.iterate` again.

## Why a step is smaller than a visit

A visit runs a block and receives all that it sends on, which is a fold inside a
recursion. An invariant of visits would have to be one of the fold as well, with the
states that were not received yet as a part of it; every proof would be an induction in
an induction. `Moment` makes that part visible, and what is left is one case for each
thing that can happen (`next_cases`, and `Move` in `Proofs/Flow/Invariant`).

## Why a relation and not a count of steps

The number of steps plays no part in what is found. With `Leads` as a reflexive
transitive closure, a property that steps keep is kept by runs (`Leads.keeps`). That the
end does not depend on how one gets there is `Leads.to_end`: a step is a function, so of
two moments on the way from a third, the end lies behind both.
-/

set_option autoImplicit false

namespace Custody.Flow

variable {σ : Type}

namespace Progress

/-! ## Without a limit -/

/-- How often the entry state of a block has changed. A block that was never entered has
no entry in `changes`, and counts as zero. -/
def count (progress : Progress σ) (block : Nat) : Nat :=
  (progress.changes.get? block).getD 0

/-- No entry state has changed more often than `limit`. Moments know no limit; this is
how they are compared with the loop, which has one. -/
def Bounded (limit : Nat) (progress : Progress σ) : Prop :=
  ∀ block, progress.count block ≤ limit

/-- A new entry state of a block, which then waits. This is `Progress.update` without
the limit, and can therefore not fail. -/
def enter (progress : Progress σ) (order : List Nat) (block : Nat) (state : σ) :
    Progress σ :=
  { progress with
    entries := progress.entries.insert block state
    pending := progress.pending.insert (order.idxOf block) ()
    changes := progress.changes.insert block (progress.count block + 1) }

/-- A state that flows into a block: `Progress.absorb` without the limit, and so without
an error. -/
def receive [DecidableEq σ] (progress : Progress σ) (join : σ → σ → σ) (order : List Nat)
    (block : Nat) (state : σ) : Progress σ :=
  match progress.entries.get? block with
  | none => progress.enter order block state
  | some old =>
    if join old state = old then progress else progress.enter order block (join old state)

theorem get?_enter (progress : Progress σ) (order : List Nat) (block other : Nat)
    (state : σ) :
    (progress.enter order block state).entries.get? other
      = if other = block then some state else progress.entries.get? other :=
  FinMap.get?_insert _ _ _ _

theorem waits_enter (progress : Progress σ) (order : List Nat) (block position : Nat)
    (state : σ) :
    (progress.enter order block state).pending.get? position
      = if position = order.idxOf block then some () else progress.pending.get? position :=
  FinMap.get?_insert _ _ _ _

theorem count_enter (progress : Progress σ) (order : List Nat) (block other : Nat)
    (state : σ) :
    (progress.enter order block state).count other
      = if other = block then progress.count block + 1 else progress.count other := by
  unfold count enter
  rw [FinMap.get?_insert]
  split <;> rfl

theorem count_le_enter (progress : Progress σ) (order : List Nat) (block other : Nat)
    (state : σ) :
    progress.count other ≤ (progress.enter order block state).count other := by
  rw [count_enter]
  split
  · rename_i heq
    subst heq
    exact Nat.le_succ _
  · exact Nat.le_refl _

/-- All that receiving a state can do: nothing, or a new entry state for the block,
which is the state itself if it is the first one there. -/
theorem receive_cases [DecidableEq σ] (progress : Progress σ) (join : σ → σ → σ)
    (order : List Nat) (block : Nat) (state : σ) :
    (progress.entries.get? block = none ∧
      progress.receive join order block state = progress.enter order block state) ∨
    ∃ old, progress.entries.get? block = some old ∧
      ((join old state = old ∧ progress.receive join order block state = progress) ∨
        (join old state ≠ old ∧
          progress.receive join order block state =
            progress.enter order block (join old state))) := by
  unfold receive
  cases hold : progress.entries.get? block with
  | none => exact .inl ⟨rfl, rfl⟩
  | some old =>
    refine .inr ⟨old, rfl, ?_⟩
    by_cases hjoin : join old state = old
    · exact .inl ⟨hjoin, if_pos hjoin⟩
    · exact .inr ⟨hjoin, if_neg hjoin⟩

theorem count_le_receive [DecidableEq σ] (progress : Progress σ) (join : σ → σ → σ)
    (order : List Nat) (block other : Nat) (state : σ) :
    progress.count other ≤ (progress.receive join order block state).count other := by
  rcases progress.receive_cases join order block state with ⟨-, h⟩ |
    ⟨old, -, ⟨-, h⟩ | ⟨-, h⟩⟩
  · rw [h]
    exact count_le_enter progress order block other state
  · exact Nat.le_of_eq (by rw [h])
  · rw [h]
    exact count_le_enter progress order block other _

theorem update_eq (progress : Progress σ) (order : List Nat) (limit block : Nat)
    (state : σ) :
    progress.update order limit block state
      = if limit < progress.count block + 1 then .error block
        else .ok (progress.enter order block state) := rfl

theorem receive_of_absorb [DecidableEq σ] {progress after : Progress σ} {join : σ → σ → σ}
    {order : List Nat} {limit block : Nat} {state : σ}
    (h : progress.absorb join order limit block state = .ok after) :
    after = progress.receive join order block state ∧
      (Bounded limit progress → Bounded limit after) := by
  -- Both ways to an update, with a first state and with a joined one, end here.
  have hupdate : ∀ {state'}, progress.update order limit block state' = .ok after →
      after = progress.enter order block state' ∧
        (Bounded limit progress → Bounded limit after) := by
    intro state' h
    rw [update_eq] at h
    split at h
    · cases h
    · rename_i hlimit
      cases h
      refine ⟨rfl, fun hbounded other => ?_⟩
      rw [count_enter]
      split
      · exact Nat.le_of_not_lt hlimit
      · exact hbounded other
  cases hold : progress.entries.get? block with
  | none =>
    simp only [absorb, hold] at h
    simp only [receive, hold]
    exact hupdate h
  | some old =>
    simp only [absorb, hold] at h
    simp only [receive, hold]
    split at h
    · rename_i hjoin
      cases h
      rw [if_pos hjoin]
      exact ⟨rfl, id⟩
    · rename_i hjoin
      rw [if_neg hjoin]
      exact hupdate h

theorem absorb_of_bounded [DecidableEq σ] {progress : Progress σ} {join : σ → σ → σ}
    {order : List Nat} {limit block : Nat} {state : σ}
    (h : Bounded limit (progress.receive join order block state)) :
    progress.absorb join order limit block state =
      .ok (progress.receive join order block state) := by
  have hupdate : ∀ state', Bounded limit (progress.enter order block state') →
      progress.update order limit block state' =
        .ok (progress.enter order block state') := by
    intro state' h
    have hblock := h block
    rw [count_enter, if_pos rfl] at hblock
    rw [update_eq, if_neg (Nat.not_lt.2 hblock)]
  cases hold : progress.entries.get? block with
  | none =>
    simp only [receive, hold] at h
    simp only [absorb, receive, hold]
    exact hupdate _ h
  | some old =>
    simp only [receive, hold] at h
    simp only [absorb, receive, hold]
    split
    · rfl
    · rename_i hjoin
      rw [if_neg hjoin] at h
      exact hupdate _ h

def unwait (progress : Progress σ) (position : Nat) : Progress σ :=
  { progress with pending := progress.pending.erase position }

def visited (progress : Progress σ) : Progress σ :=
  { progress with visits := progress.visits + 1 }

end Progress

/-! ## Moments -/

/-- The iteration between two steps: how far it is, and what the block that was run last
sent on and has not been received yet. Between two visits of the loop nothing is on its
way, so the moments of the loop are those with no flows. -/
structure Moment (σ : Type) where
  progress : Progress σ
  flows : List (Nat × σ)

namespace Moment

/-- The moment after a block that waits at a position was taken and run. One that has no
entry state is passed over; `Sound` shows that there are none, but a step has to say
what it would do. -/
def take (system : System σ) (order : List Nat) (progress : Progress σ) (position : Nat) :
    Moment σ :=
  match progress.entries.get? (order.getD position 0) with
  | none => ⟨progress.unwait position, []⟩
  | some state =>
    ⟨(progress.unwait position).visited, system.run (order.getD position 0) state⟩

/-- The next moment, unless nothing waits. What is on its way comes first, so that a
block is run only when all that the one before it sent on has been received. -/
def next [DecidableEq σ] (system : System σ) (order : List Nat) (moment : Moment σ) :
    Option (Moment σ) :=
  match moment.flows with
  | (block, state) :: rest =>
    some ⟨moment.progress.receive system.join order block state, rest⟩
  | [] =>
    match moment.progress.pending.entries with
    | [] => none
    | (position, _) :: _ => some (take system order moment.progress position)

/-- **All that a step can be**: a state is received, or the first block that waits is
taken. A block that waits without an entry state is passed over. -/
theorem next_cases [DecidableEq σ] {system : System σ} {order : List Nat} {a b : Moment σ}
    (h : a.next system order = some b) :
    (∃ block state rest, a.flows = (block, state) :: rest ∧
      b = ⟨a.progress.receive system.join order block state, rest⟩) ∨
    ∃ position, a.flows = [] ∧ a.progress.pending.entries.head? = some (position, ()) ∧
      ((a.progress.entries.get? (order.getD position 0) = none ∧
          b = ⟨a.progress.unwait position, []⟩) ∨
        ∃ state, a.progress.entries.get? (order.getD position 0) = some state ∧
          b = ⟨(a.progress.unwait position).visited,
            system.run (order.getD position 0) state⟩) := by
  unfold next at h
  split at h
  · rename_i block state rest hflows
    cases h
    exact .inl ⟨block, state, rest, hflows, rfl⟩
  · rename_i hflows
    split at h
    · cases h
    · rename_i position _ _ hpending
      cases h
      refine .inr ⟨position, hflows, by rw [hpending]; rfl, ?_⟩
      unfold take
      cases hstate : a.progress.entries.get? (order.getD position 0) with
      | none => exact .inl ⟨rfl, rfl⟩
      | some state => exact .inr ⟨state, rfl, rfl⟩

theorem next_eq_none_iff [DecidableEq σ] {system : System σ} {order : List Nat}
    {moment : Moment σ} :
    moment.next system order = none ↔
      moment.flows = [] ∧ moment.progress.pending.entries = [] := by
  unfold next
  cases moment.flows with
  | nil => cases moment.progress.pending.entries <;> simp
  | cons flow rest => simp

def start (order : List Nat) (entry : Nat) (state : σ) : Moment σ :=
  ⟨.start order entry state, []⟩

/-- Every state is good, on entry to a block or on its way to one. A property of states
that blocks and joins keep is lifted to moments with this, for instance that
environments are canonical. -/
structure Holds (good : σ → Prop) (moment : Moment σ) : Prop where
  entries : ∀ {block state}, moment.progress.entries.get? block = some state → good state
  flows : ∀ flow ∈ moment.flows, good flow.2

theorem holds_start {good : σ → Prop} (order : List Nat) (entry : Nat) {state : σ}
    (h : good state) :
    (start order entry state).Holds good := by
  refine ⟨fun {block other} hother => ?_, fun flow hflow => by cases hflow⟩
  simp only [start, Progress.start, FinMap.get?_insert, FinMap.get?_empty] at hother
  split at hother
  · cases hother
    exact h
  · cases hother

end Moment

variable [DecidableEq σ] {system : System σ} {order : List Nat} {limit : Nat}

/-- The iteration gets from one moment to another. Induction along it, with `keeps`, is
how invariants are carried over a run. -/
def Leads (system : System σ) (order : List Nat) : Moment σ → Moment σ → Prop :=
  Relation.ReflTransGen fun a b => a.next system order = some b

namespace Leads

theorem refl (moment : Moment σ) : Leads system order moment moment :=
  Relation.ReflTransGen.refl

theorem trans {a b c : Moment σ} (hab : Leads system order a b)
    (hbc : Leads system order b c) :
    Leads system order a c :=
  Relation.ReflTransGen.trans hab hbc

theorem head {a b c : Moment σ} (hab : a.next system order = some b)
    (hbc : Leads system order b c) :
    Leads system order a c :=
  Relation.ReflTransGen.head hab hbc

theorem eq_of_end {a b : Moment σ} (hend : a.next system order = none)
    (h : Leads system order a b) : b = a := by
  rcases Relation.ReflTransGen.cases_head h with heq | ⟨c, hc, -⟩
  · exact heq.symm
  · rw [hend] at hc
    cases hc

/-- The iteration takes one way only: whatever it comes by lies before its end. -/
theorem to_end {a b last : Moment σ} (hab : Leads system order a b)
    (hlast : Leads system order a last) (hend : last.next system order = none) :
    Leads system order b last := by
  -- `next` is a function, so of two moments on the way one comes after the other.
  have hunique : Relator.RightUnique fun a b : Moment σ => a.next system order = some b :=
    fun _ _ _ h h' => Option.some.inj (h.symm.trans h')
  rcases Relation.ReflTransGen.total_of_right_unique hunique hab hlast with h | h
  · exact h
  · rw [eq_of_end hend h]
    exact refl last

/-- A property of moments that every step keeps holds all along. -/
theorem keeps {Inv : Moment σ → Prop}
    (hstep : ∀ {a b : Moment σ}, Inv a → a.next system order = some b → Inv b)
    {a b : Moment σ} (h : Leads system order a b) (ha : Inv a) : Inv b := by
  induction h with
  | refl => exact ha
  | tail _ hbc ih => exact hstep ih hbc

end Leads

theorem Moment.Holds.next {good : σ → Prop}
    (hrun : ∀ {block state flow}, good state → flow ∈ system.run block state →
      good flow.2)
    (hjoin : ∀ {a b}, good a → good b → good (system.join a b)) {a b : Moment σ}
    (h : a.Holds good) (hnext : a.next system order = some b) : b.Holds good := by
  rcases Moment.next_cases hnext with ⟨block, state, rest, hflows, rfl⟩ |
    ⟨position, -, -, ⟨-, rfl⟩ | ⟨state, hstate, rfl⟩⟩
  · have hsent : good state :=
      h.flows (block, state) (by rw [hflows]; exact List.mem_cons_self)
    refine ⟨fun {other new} hnew => ?_, fun flow hflow =>
      h.flows flow (by rw [hflows]; exact List.mem_cons_of_mem _ hflow)⟩
    -- Of the entry states only one can be new, and it is what was received or a join
    -- with it.
    have henter : ∀ received, good received →
        (a.progress.enter order block received).entries.get? other = some new →
          good new := by
      intro received hgood hnew
      rw [Progress.get?_enter] at hnew
      split at hnew
      · cases hnew
        exact hgood
      · exact h.entries hnew
    rcases a.progress.receive_cases system.join order block state with ⟨-, heq⟩ |
      ⟨old, hold, ⟨-, heq⟩ | ⟨-, heq⟩⟩
    · exact henter state hsent (heq ▸ hnew)
    · exact h.entries (heq ▸ hnew)
    · exact henter _ (hjoin (h.entries hold) hsent) (heq ▸ hnew)
  · exact ⟨h.entries, fun flow hflow => by cases hflow⟩
  · exact ⟨h.entries, fun flow hflow => hrun (h.entries hstate) hflow⟩

theorem Leads.holds {good : σ → Prop}
    (hrun : ∀ {block state flow}, good state → flow ∈ system.run block state →
      good flow.2)
    (hjoin : ∀ {a b}, good a → good b → good (system.join a b)) {a b : Moment σ}
    (h : Leads system order a b) (ha : a.Holds good) : b.Holds good :=
  h.keeps (fun ha hnext => ha.next hrun hjoin hnext) ha

/-- The states that a block sent on are all received before anything else happens. The
induction is on the states, and each is one step. -/
theorem leads_receive (system : System σ) (order : List Nat) (progress : Progress σ)
    (flows : List (Nat × σ)) :
    Leads system order ⟨progress, flows⟩
      ⟨flows.foldl
        (fun progress flow => progress.receive system.join order flow.1 flow.2) progress,
        []⟩ := by
  induction flows generalizing progress with
  | nil => exact .refl _
  | cons flow rest ih => exact .head rfl (ih _)

theorem count_le_of_leads {a b : Moment σ} (h : Leads system order a b) (block : Nat) :
    a.progress.count block ≤ b.progress.count block := by
  induction h with
  | refl => exact Nat.le_refl _
  | @tail b c _ hbc ih =>
    refine Nat.le_trans ih ?_
    rcases Moment.next_cases hbc with ⟨block, state, rest, -, rfl⟩ |
      ⟨position, -, -, ⟨-, rfl⟩ | ⟨state, -, rfl⟩⟩
    · exact Progress.count_le_receive _ _ _ _ _ _
    · exact Nat.le_refl _
    · exact Nat.le_refl _

/-!
## The loop

The fold of a visit, with the limit and without, and then the loop around it. The limit
is the same for all blocks, and counts only grow, so that a limit which is kept in the
end was kept at every step before; that is the direction in which `iterate_of_leads`
needs it.
-/

theorem foldl_of_foldlM {progress after : Progress σ} {flows : List (Nat × σ)}
    (h : flows.foldlM (fun progress (flow : Nat × σ) =>
      progress.absorb system.join order limit flow.1 flow.2) progress = .ok after) :
    after = flows.foldl (fun progress flow =>
        progress.receive system.join order flow.1 flow.2) progress ∧
      (Progress.Bounded limit progress → Progress.Bounded limit after) := by
  induction flows generalizing progress with
  | nil =>
    cases h
    exact ⟨rfl, id⟩
  | cons flow rest ih =>
    rw [List.foldlM_cons] at h
    cases habsorb : progress.absorb system.join order limit flow.1 flow.2 with
    | error block =>
      rw [habsorb] at h
      cases h
    | ok mid =>
      rw [habsorb] at h
      obtain ⟨rfl, hmid⟩ := Progress.receive_of_absorb habsorb
      obtain ⟨hafter, hbounded⟩ := ih h
      exact ⟨hafter, fun hprogress => hbounded (hmid hprogress)⟩

theorem foldlM_of_bounded {progress : Progress σ} {flows : List (Nat × σ)}
    (h : Progress.Bounded limit (flows.foldl (fun progress flow =>
      progress.receive system.join order flow.1 flow.2) progress)) :
    flows.foldlM (fun progress (flow : Nat × σ) =>
        progress.absorb system.join order limit flow.1 flow.2) progress
      = .ok (flows.foldl (fun progress flow =>
        progress.receive system.join order flow.1 flow.2)
          progress) := by
  induction flows generalizing progress with
  | nil => rfl
  | cons flow rest ih =>
    have hrest := ih h
    -- Counts only grow: a limit that is kept in the end was kept after the first state.
    have hfirst :
        Progress.Bounded limit (progress.receive system.join order flow.1 flow.2) := by
      intro block
      have hle := count_le_of_leads (leads_receive system order
        (progress.receive system.join order flow.1 flow.2) rest) block
      exact Nat.le_trans hle (h block)
    rw [List.foldlM_cons, Progress.absorb_of_bounded hfirst]
    exact hrest

theorem visit_eq (progress : Progress σ) (block : Nat) :
    progress.visit system order limit block =
      match progress.entries.get? block with
      | none => .ok progress
      | some state => (system.run block state).foldlM (fun progress (flow : Nat × σ) =>
          progress.absorb system.join order limit flow.1 flow.2) progress.visited := rfl

theorem iterate_of_pending_nil {progress : Progress σ} (h : progress.pending.entries = [])
    (steps : Nat) : Progress.iterate system order limit steps progress = .ok progress := by
  unfold Progress.iterate
  rw [h]

section Waiting

variable {progress : Progress σ} {position : Nat} {rest : List (Nat × Unit)}

theorem iterate_succ (h : progress.pending.entries = (position, ()) :: rest) (steps : Nat) :
    Progress.iterate system order limit (steps + 1) progress =
      (progress.unwait position).visit system order limit (order.getD position 0) >>=
        Progress.iterate system order limit steps := by
  conv => lhs; unfold Progress.iterate
  rw [h]
  rfl

theorem iterate_zero (h : progress.pending.entries = (position, ()) :: rest) :
    Progress.iterate system order limit 0 progress = .error (order.getD position 0) := by
  unfold Progress.iterate
  rw [h]

theorem next_take (h : progress.pending.entries = (position, ()) :: rest) {state : σ}
    (hstate : progress.entries.get? (order.getD position 0) = some state) :
    Moment.next system order ⟨progress, []⟩
      = some ⟨(progress.unwait position).visited,
        system.run (order.getD position 0) state⟩ := by
  simp only [Moment.next, h, Moment.take, hstate]

/-- Taking a block and receiving all it sends on is one visit of the loop. -/
theorem leads_visit (h : progress.pending.entries = (position, ()) :: rest) {state : σ}
    (hstate : progress.entries.get? (order.getD position 0) = some state) :
    Leads system order ⟨progress, []⟩
      ⟨(system.run (order.getD position 0) state).foldl
        (fun progress flow => progress.receive system.join order flow.1 flow.2)
        (progress.unwait position).visited, []⟩ :=
  .head (next_take h hstate) (leads_receive system order _ _)

theorem leads_skip (h : progress.pending.entries = (position, ()) :: rest)
    (hstate : progress.entries.get? (order.getD position 0) = none) :
    Leads system order ⟨progress, []⟩ ⟨progress.unwait position, []⟩ := by
  have hnext :
      Moment.next system order ⟨progress, []⟩ = some ⟨progress.unwait position, []⟩ := by
    simp only [Moment.next, h, Moment.take, hstate]
  exact .head hnext (.refl _)

end Waiting

/-- **The loop follows the iteration.** Where it succeeds, nothing waits any more, and
no count has come above the limit. -/
theorem leads_of_iterate {steps : Nat} {progress after : Progress σ}
    (h : Progress.iterate system order limit steps progress = .ok after) :
    Leads system order ⟨progress, []⟩ ⟨after, []⟩ ∧ after.pending.entries = [] ∧
      (Progress.Bounded limit progress → Progress.Bounded limit after) := by
  induction steps generalizing progress with
  | zero =>
    cases hpending : progress.pending.entries with
    | nil =>
      rw [iterate_of_pending_nil hpending] at h
      cases h
      exact ⟨.refl _, hpending, id⟩
    | cons head rest =>
      rw [iterate_zero hpending] at h
      cases h
  | succ steps ih =>
    cases hpending : progress.pending.entries with
    | nil =>
      rw [iterate_of_pending_nil hpending] at h
      cases h
      exact ⟨.refl _, hpending, id⟩
    | cons head rest =>
      obtain ⟨position, _⟩ := head
      rw [iterate_succ hpending, visit_eq] at h
      cases hstate : progress.entries.get? (order.getD position 0) with
      | none =>
        -- To pass over a block is a step of the loop too, but no visit.
        simp only [Progress.unwait, hstate] at h
        obtain ⟨hleads, hend, hbounded⟩ := ih h
        exact ⟨(leads_skip hpending hstate).trans hleads, hend, hbounded⟩
      | some state =>
        simp only [Progress.unwait, hstate] at h
        cases hfold : (system.run (order.getD position 0) state).foldlM
            (fun progress (flow : Nat × σ) =>
              progress.absorb system.join order limit flow.1 flow.2)
            (progress.unwait position).visited with
        | error block =>
          simp only [Progress.unwait] at hfold
          rw [hfold] at h
          cases h
        | ok mid =>
          obtain ⟨rfl, hmid⟩ := foldl_of_foldlM hfold
          simp only [Progress.unwait] at hfold
          rw [hfold] at h
          obtain ⟨hleads, hend, hbounded⟩ := ih h
          exact ⟨(leads_visit hpending hstate).trans hleads, hend,
            fun hprogress => hbounded (hmid hprogress)⟩

theorem leads_of_solve {entry : Nat} {state : σ} {entries : FinMap Nat σ} {visits : Nat}
    (h : solve system order limit entry state = .ok (entries, visits)) :
    ∃ last, Leads system order (Moment.start order entry state) ⟨last, []⟩ ∧
      last.pending.entries = [] ∧
      Progress.Bounded limit last ∧ last.entries = entries ∧ last.visits = visits := by
  unfold solve at h
  cases hiterate : Progress.iterate system order limit (order.length * limit + 1)
      (.start order entry state) with
  | error block =>
    rw [hiterate] at h
    cases h
  | ok last =>
    rw [hiterate] at h
    cases h
    obtain ⟨hlast, hend, hbounded⟩ := leads_of_iterate hiterate
    exact ⟨last, hlast, hend, hbounded fun block => Nat.zero_le limit, rfl, rfl⟩

theorem visits_receive (progress : Progress σ) (join : σ → σ → σ) (block : Nat)
    (state : σ) :
    (progress.receive join order block state).visits = progress.visits := by
  rcases progress.receive_cases join order block state with ⟨-, h⟩ |
    ⟨old, -, ⟨-, h⟩ | ⟨-, h⟩⟩
  · rw [h]
    rfl
  · rw [h]
  · rw [h]
    rfl

theorem visits_le_of_leads {a b : Moment σ} (h : Leads system order a b) :
    a.progress.visits ≤ b.progress.visits := by
  induction h with
  | refl => exact Nat.le_refl _
  | @tail b c _ hbc ih =>
    refine Nat.le_trans ih ?_
    rcases Moment.next_cases hbc with ⟨block, state, rest, -, rfl⟩ |
      ⟨position, -, -, ⟨-, rfl⟩ | ⟨state, -, rfl⟩⟩
    · exact Nat.le_of_eq (visits_receive _ _ _ _).symm
    · exact Nat.le_refl _
    · exact Nat.le_succ _

theorem visits_foldl_receive (progress : Progress σ) (flows : List (Nat × σ)) :
    (flows.foldl (fun progress flow => progress.receive system.join order flow.1 flow.2)
      progress).visits = progress.visits := by
  induction flows generalizing progress with
  | nil => rfl
  | cons flow rest ih => rw [List.foldl_cons, ih, visits_receive]

/-- A visit on the way to an end within the limit does not fail. It is found in the
middle of the run: after it nothing is on its way, and from there the run goes on to its
end. -/
theorem visit_of_leads {progress last : Progress σ} {position : Nat}
    {rest : List (Nat × Unit)} {state : σ}
    (hpending : progress.pending.entries = (position, ()) :: rest)
    (hstate : progress.entries.get? (order.getD position 0) = some state)
    (hlast : Leads system order ⟨progress, []⟩ ⟨last, []⟩)
    (hend : last.pending.entries = []) (hbounded : Progress.Bounded limit last) :
    ∃ mid, (progress.unwait position).visit system order limit (order.getD position 0) =
      .ok mid ∧
      mid.visits = progress.visits + 1 ∧ Leads system order ⟨progress, []⟩ ⟨mid, []⟩ ∧
      Leads system order ⟨mid, []⟩ ⟨last, []⟩ := by
  have hmid : Leads system order ⟨progress, []⟩ _ := leads_visit hpending hstate
  have hrest := hmid.to_end hlast (Moment.next_eq_none_iff.2 ⟨rfl, hend⟩)
  refine ⟨_, ?_, ?_, hmid, hrest⟩
  · have hstate' :
        (progress.unwait position).entries.get? (order.getD position 0) = some state :=
      hstate
    rw [visit_eq, hstate']
    exact foldlM_of_bounded fun block =>
      Nat.le_trans (count_le_of_leads hrest block) (hbounded block)
  · rw [visits_foldl_receive]
    rfl

/-- No block that waits is without an entry state, so that every step of the loop is a
visit. -/
def Awaited (order : List Nat) (progress : Progress σ) : Prop :=
  ∀ position, progress.pending.get? position = some () →
    ∃ state, progress.entries.get? (order.getD position 0) = some state

/-- **The loop gets as far as the iteration does**, if the limit and its number of steps
allow it. That blocks which wait have an entry state is asked of all moments on the way,
because a step that passes over a block would use up one of the loop and is no visit. -/
theorem iterate_of_leads {steps : Nat} {progress last : Progress σ}
    (hlast : Leads system order ⟨progress, []⟩ ⟨last, []⟩)
    (hend : last.pending.entries = []) (hbounded : Progress.Bounded limit last)
    (hawaited : ∀ moment, Leads system order ⟨progress, []⟩ moment →
      Awaited order moment.progress)
    (hsteps : last.visits ≤ progress.visits + steps) :
    Progress.iterate system order limit steps progress = .ok last := by
  induction steps generalizing progress with
  | zero =>
    cases hpending : progress.pending.entries with
    | nil =>
      have hstop : Moment.next system order ⟨progress, []⟩ = none :=
        Moment.next_eq_none_iff.2 ⟨rfl, hpending⟩
      cases hlast.eq_of_end hstop
      exact iterate_of_pending_nil hend 0
    | cons head rest =>
      -- A block waits, so there is a visit to come, and no step left for it.
      obtain ⟨position, _⟩ := head
      obtain ⟨state, hstate⟩ := hawaited _ (.refl _) position
        (FinMap.get?_eq_some_iff.2 (by rw [hpending]; exact List.mem_cons_self))
      obtain ⟨mid, -, hvisits, -, hrest⟩ :=
        visit_of_leads hpending hstate hlast hend hbounded
      have hle := visits_le_of_leads hrest
      simp only at hle
      omega
  | succ steps ih =>
    cases hpending : progress.pending.entries with
    | nil =>
      have hstop : Moment.next system order ⟨progress, []⟩ = none :=
        Moment.next_eq_none_iff.2 ⟨rfl, hpending⟩
      cases hlast.eq_of_end hstop
      exact iterate_of_pending_nil hend (steps + 1)
    | cons head rest =>
      obtain ⟨position, _⟩ := head
      obtain ⟨state, hstate⟩ := hawaited _ (.refl _) position
        (FinMap.get?_eq_some_iff.2 (by rw [hpending]; exact List.mem_cons_self))
      obtain ⟨mid, hvisit, hvisits, hmid, hrest⟩ :=
        visit_of_leads hpending hstate hlast hend hbounded
      rw [iterate_succ hpending, hvisit]
      exact ih hrest (fun moment hmoment => hawaited moment (hmid.trans hmoment)) (by omega)

end Custody.Flow
