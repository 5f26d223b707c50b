import Custody.Proofs.Except
import Custody.Proofs.Flow.Run

/-!
# Iterations on translated states

Two systems whose states correspond one to one, and that send on and join corresponding
states, take the same way to their fixed points: the same visits and changes, or the
same block that does not settle.

The use for this is a change of names. Capability types are numbered in the order in
which units declare them, and the numbers are in every environment; with the units in
another order the analysis of a body iterates over environments with other numbers. That
it comes to the corresponding result cannot be had from the result being a post-fixed
point, since there are many. It has to be seen that the two iterations run side by side.

## What `Translated` asks for, and why `φ` is injective

Running and joining have to commute with the translation `φ`. Beside them the iteration
does one thing with states, it compares them: a block waits again if its entry state has
changed. Two states that `φ` made equal would be a change on one side and none on the
other, and the visits would no longer be the same. So `φ` has to be injective, and
nothing else is asked of it, neither that all states of the second system are
translations nor any law of the joins.

## Why the loop and not the bare iteration

The limit on changes and the number of visits are part of what is compared, so the proof
follows `Progress.iterate` itself, one lemma for each of its functions, from `update` to
`solve`. Blocks are not translated: both sides have the same graph and the same order.
-/

set_option autoImplicit false

namespace Custody.Flow

variable {σ τ : Type} [DecidableEq σ] [DecidableEq τ] {φ : σ → τ} {system : System σ}
  {system' : System τ}

variable (φ) in
/-- The iteration with every entry state translated. What waits, and how often states
have changed, is as it was. -/
def Progress.map (progress : Progress σ) : Progress τ :=
  { progress with entries := progress.entries.mapValues fun _ => φ }

variable (φ) in
/-- Both systems do the same, on states that `φ` translates without mixing them up. It
has to be injective because the loop compares states, and stops when they are equal. -/
structure System.Translated (system : System σ) (system' : System τ) : Prop where
  injective : Function.Injective φ
  run : ∀ block state,
    system'.run block (φ state) = (system.run block state).map (Prod.map id φ)
  join : ∀ a b, system'.join (φ a) (φ b) = φ (system.join a b)

namespace System.Translated

omit [DecidableEq σ] [DecidableEq τ] in
theorem update_map (progress : Progress σ) (order : List Nat) (limit block : Nat)
    (state : σ) :
    (progress.map φ).update order limit block (φ state) =
      (progress.update order limit block state).map (Progress.map φ) := by
  by_cases hlimit : limit < (progress.changes.get? block).getD 0 + 1
  · simp [Progress.update, Progress.map, hlimit, Except.map]
  · simp [Progress.update, Progress.map, hlimit, Except.map, FinMap.mapValues_insert]

variable (h : system.Translated φ system')

include h

theorem absorb (progress : Progress σ) (order : List Nat) (limit block : Nat) (state : σ) :
    (progress.map φ).absorb system'.join order limit block (φ state) =
      (progress.absorb system.join order limit block state).map (Progress.map φ) := by
  have hget : (progress.map φ).entries.get? block = (progress.entries.get? block).map φ :=
    FinMap.get?_mapValues _ _ _
  simp only [Progress.absorb, hget]
  cases progress.entries.get? block with
  | none => exact update_map progress order limit block state
  | some old =>
    simp only [Option.map_some, h.join, h.injective.eq_iff]
    split
    · rfl
    · exact update_map progress order limit block _

theorem foldlM_absorb (order : List Nat) (limit : Nat) (flows : List (Nat × σ))
    (progress : Progress σ) :
    (flows.map (Prod.map id φ)).foldlM
        (fun (progress : Progress τ) (target, out) =>
          progress.absorb system'.join order limit target out) (progress.map φ) =
      (flows.foldlM
        (fun (progress : Progress σ) (target, out) =>
          progress.absorb system.join order limit target out) progress).map
        (Progress.map φ) := by
  induction flows generalizing progress with
  | nil => rfl
  | cons flow flows ih =>
    simp only [List.map_cons, List.foldlM_cons, Prod.map, id, h.absorb]
    cases progress.absorb system.join order limit flow.1 flow.2 with
    | error block => rfl
    | ok after => exact ih after

theorem visit (progress : Progress σ) (order : List Nat) (limit block : Nat) :
    (progress.map φ).visit system' order limit block =
      (progress.visit system order limit block).map (Progress.map φ) := by
  have hget : (progress.map φ).entries.get? block = (progress.entries.get? block).map φ :=
    FinMap.get?_mapValues _ _ _
  simp only [Progress.visit, hget]
  cases progress.entries.get? block with
  | none => rfl
  | some state =>
    simp only [Option.map_some, h.run]
    exact h.foldlM_absorb order limit _ { progress with visits := progress.visits + 1 }

omit h in
theorem iterate_of_done (order : List Nat) (limit steps : Nat) {progress : Progress σ}
    (hdone : progress.pending.entries = []) :
    Progress.iterate system' order limit steps (progress.map φ) =
      (Progress.iterate system order limit steps progress).map (Progress.map φ) := by
  have hdone' : (progress.map φ).pending.entries = [] := hdone
  rw [iterate_of_pending_nil hdone, iterate_of_pending_nil hdone']
  rfl

theorem iterate (order : List Nat) (limit steps : Nat) (progress : Progress σ) :
    Progress.iterate system' order limit steps (progress.map φ) =
      (Progress.iterate system order limit steps progress).map (Progress.map φ) := by
  induction steps generalizing progress with
  | zero =>
    cases hpending : progress.pending.entries with
    | nil => exact iterate_of_done order limit 0 hpending
    | cons waiting rest =>
      have hpending' : (progress.map φ).pending.entries = waiting :: rest := hpending
      rw [iterate_zero hpending, iterate_zero hpending']
      rfl
  | succ steps ih =>
    cases hpending : progress.pending.entries with
    | nil => exact iterate_of_done order limit (steps + 1) hpending
    | cons waiting rest =>
      have hpending' : (progress.map φ).pending.entries = waiting :: rest := hpending
      -- One round of the loop: the same position is taken, since positions are not
      -- translated.
      have hvisit :=
        h.visit (progress.unwait waiting.1) order limit (order.getD waiting.1 0)
      rw [iterate_succ hpending, iterate_succ hpending', map_bind]
      show Progress.visit ((progress.unwait waiting.1).map φ) system' order limit _
        >>= _ = _
      rw [hvisit]
      cases (progress.unwait waiting.1).visit system order limit
          (order.getD waiting.1 0) with
      | error block => rfl
      | ok after => exact ih after

/-- **The results correspond**: the entry states are the translated ones, found in as
many visits, and if one iteration gives up the other does at the same block. -/
theorem solve (order : List Nat) (limit entry : Nat) (state : σ) :
    Flow.solve system' order limit entry (φ state) =
      (Flow.solve system order limit entry state).map
        (Prod.map (·.mapValues fun _ => φ) id) := by
  have hstart :
      Progress.start order entry (φ state) =
        (Progress.start order entry state).map φ := by
    simp [Progress.start, Progress.map, FinMap.mapValues_insert]
    rfl
  rw [Flow.solve, hstart, h.iterate, Flow.solve]
  cases Progress.iterate system order limit (order.length * limit + 1)
    (.start order entry state) <;> rfl

end System.Translated

end Custody.Flow
