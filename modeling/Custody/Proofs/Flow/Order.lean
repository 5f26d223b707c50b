import Custody.Flow.Order
import Mathlib.Algebra.BigOperators.Group.Finset.Basic
import Mathlib.Algebra.GroupWithZero.Nat

/-!
# The walk finds every vertex that can be reached

The visiting order is only good for an iteration if it holds the entry and, with a
vertex, all its successors: a state that is sent on then always has a place to wait.
Here this is proved of `reversePostorder`, for graphs whose edges stay below the given
size.

`Exploring` is what every step of the walk keeps, and `work` is what the steps of the
walk use up.

`walk` is written with a number of steps and three cases, so an invariant of it is
proved by three lemmas, one for each case, and an induction on the number. The induction
is the same whatever the invariant, and is done here for all of them: `Kept` collects
the three lemmas, and `Kept.reversePostorder` gives what they say of the result.
`Proofs/Flow/Topological` and `Proofs/Flow/Walk` add invariants to it, and neither looks
at `walk` again.
-/

set_option autoImplicit false

namespace Custody.Flow

variable {successors : Nat → List Nat} {size entry : Nat}

/-- An order that holds the entry and leaves no successor out. With it every state that
flows goes to a block that has a position. -/
structure Closed (successors : Nat → List Nat) (entry : Nat) (order : List Nat) : Prop where
  entry_mem : entry ∈ order
  successors_mem : ∀ vertex ∈ order, ∀ target ∈ successors vertex, target ∈ order

/-- The walk under way: what was seen is done or on the stack, and a successor that was
not seen yet is one that its vertex on the stack still has to follow. At the end the
stack is empty, and what is left of this says that nothing was forgotten. -/
structure Exploring (successors : Nat → List Nat) (size entry : Nat)
    (stack : List (Nat × List Nat)) (seen order : List Nat) : Prop where
  entry_seen : entry ∈ seen
  seen_placed : ∀ vertex ∈ seen, vertex ∈ order ∨ ∃ rest, (vertex, rest) ∈ stack
  followed : ∀ vertex rest, (vertex, rest) ∈ stack →
    ∀ target ∈ successors vertex, target ∈ seen ∨ target ∈ rest
  done : ∀ vertex ∈ order, ∀ target ∈ successors vertex, target ∈ seen
  rest_lt : ∀ vertex rest, (vertex, rest) ∈ stack → ∀ target ∈ rest, target < size

namespace Exploring

variable {vertex next : Nat} {rest : List Nat} {stack : List (Nat × List Nat)}
  {seen order : List Nat}

theorem closed (h : Exploring successors size entry [] seen order) :
    Closed successors entry order := by
  have hdone : ∀ vertex ∈ seen, vertex ∈ order := by
    intro vertex hseen
    rcases h.seen_placed vertex hseen with hmem | ⟨rest, hmem⟩
    · exact hmem
    · cases hmem
  exact ⟨hdone entry h.entry_seen,
    fun vertex hvertex target htarget =>
      hdone target (h.done vertex hvertex target htarget)⟩

theorem finish (h : Exploring successors size entry ((vertex, []) :: stack) seen order) :
    Exploring successors size entry stack seen (vertex :: order) where
  entry_seen := h.entry_seen
  seen_placed := by
    intro other hseen
    rcases h.seen_placed other hseen with hmem | ⟨rest, hmem⟩
    · exact .inl (List.mem_cons_of_mem _ hmem)
    · rcases List.mem_cons.1 hmem with heq | hmem
      · cases heq
        exact .inl List.mem_cons_self
      · exact .inr ⟨rest, hmem⟩
  followed := fun other rest hmem => h.followed other rest (List.mem_cons_of_mem _ hmem)
  done := by
    intro other hmem target htarget
    rcases List.mem_cons.1 hmem with rfl | hmem
    · rcases h.followed other [] List.mem_cons_self target htarget with hseen | hrest
      · exact hseen
      · cases hrest
    · exact h.done other hmem target htarget
  rest_lt := fun other rest hmem => h.rest_lt other rest (List.mem_cons_of_mem _ hmem)

/-- A successor that was seen before is passed over, anywhere on the stack. Anywhere,
because putting a vertex on the stack also takes it off the list of the one below it. -/
theorem skip (above : List (Nat × List Nat))
    (h : Exploring successors size entry (above ++ (vertex, next :: rest) :: stack) seen
      order)
    (hseen : next ∈ seen) :
    Exploring successors size entry (above ++ (vertex, rest) :: stack) seen order := by
  have hframe : (vertex, next :: rest) ∈ above ++ (vertex, next :: rest) :: stack :=
    List.mem_append_right _ List.mem_cons_self
  -- The stack is the same but for one frame, which has one successor less to follow.
  have hframes : ∀ frame ∈ above ++ (vertex, rest) :: stack,
      frame = (vertex, rest) ∨ frame ∈ above ++ (vertex, next :: rest) :: stack := by
    intro frame hmem
    rcases List.mem_append.1 hmem with hmem | hmem
    · exact .inr (List.mem_append_left _ hmem)
    · rcases List.mem_cons.1 hmem with heq | hmem
      · exact .inl heq
      · exact .inr (List.mem_append_right _ (List.mem_cons_of_mem _ hmem))
  refine ⟨h.entry_seen, ?_, ?_, h.done, ?_⟩
  · intro other hother
    rcases h.seen_placed other hother with hmem | ⟨rest', hmem⟩
    · exact .inl hmem
    · rcases List.mem_append.1 hmem with hmem | hmem
      · exact .inr ⟨rest', List.mem_append_left _ hmem⟩
      · rcases List.mem_cons.1 hmem with heq | hmem
        · cases heq
          exact .inr ⟨rest, List.mem_append_right _ List.mem_cons_self⟩
        · exact .inr ⟨rest', List.mem_append_right _ (List.mem_cons_of_mem _ hmem)⟩
  · intro other rest' hmem target htarget
    rcases hframes _ hmem with heq | hmem
    · cases heq
      rcases h.followed _ _ hframe target htarget with hin | hin
      · exact .inl hin
      · rcases List.mem_cons.1 hin with rfl | hin
        · exact .inl hseen
        · exact .inr hin
    · exact h.followed other rest' hmem target htarget
  · intro other rest' hmem target htarget
    rcases hframes _ hmem with heq | hmem
    · cases heq
      exact h.rest_lt _ _ hframe target (List.mem_cons_of_mem _ htarget)
    · exact h.rest_lt other rest' hmem target htarget

/-- Nothing is lost by seeing one vertex more and putting it on the stack. All its
successors are still to be followed, so that there is nothing to show of them. -/
theorem push (h : Exploring successors size entry stack seen order)
    (hlt : ∀ target ∈ successors next, target < size) :
    Exploring successors size entry ((next, successors next) :: stack)
      (next :: seen) order where
  entry_seen := List.mem_cons_of_mem _ h.entry_seen
  seen_placed := by
    intro other hother
    rcases List.mem_cons.1 hother with rfl | hother
    · exact .inr ⟨_, List.mem_cons_self⟩
    · rcases h.seen_placed other hother with hmem | ⟨rest, hmem⟩
      · exact .inl hmem
      · exact .inr ⟨rest, List.mem_cons_of_mem _ hmem⟩
  followed := by
    intro other rest hmem target htarget
    rcases List.mem_cons.1 hmem with heq | hmem
    · cases heq
      exact .inr htarget
    · rcases h.followed other rest hmem target htarget with hin | hin
      · exact .inl (List.mem_cons_of_mem _ hin)
      · exact .inr hin
  done := fun other hmem target htarget =>
    List.mem_cons_of_mem _ (h.done other hmem target htarget)
  rest_lt := by
    intro other rest hmem target htarget
    rcases List.mem_cons.1 hmem with heq | hmem
    · cases heq
      exact hlt target htarget
    · exact h.rest_lt other rest hmem target htarget

end Exploring

/-!
## The steps of a walk

Each vertex costs one step to finish and one for each of its successors. `work` counts
the costs that are still to come, on the stack and off it, and is exactly what the
number of steps in `reversePostorder` allows for, with one to spare for finding the
stack empty.
-/

/-- The steps that a vertex costs: one to finish it, and one for each successor that it
still has to follow. -/
def cost (rest : List Nat) : Nat := rest.length + 1

/-- What is left to do: the vertices on the stack, and those that were not seen yet.
Each step of the walk lowers it by one, which is where `walkSteps` comes from. -/
def work (successors : Nat → List Nat) (size : Nat) (stack : List (Nat × List Nat))
    (seen : List Nat) : Nat :=
  (stack.map fun frame => cost frame.2).sum
    + ∑ vertex ∈ Finset.range size \ seen.toFinset, cost (successors vertex)

/-- Putting a vertex on the stack costs nothing by itself: what it costs moves from the
vertices that were not seen to the stack. -/
theorem work_push {stack : List (Nat × List Nat)} {seen : List Nat} {next : Nat}
    (hnext : next < size) (hunseen : next ∉ seen) :
    work successors size ((next, successors next) :: stack) (next :: seen)
      = work successors size stack seen := by
  have hmem : next ∈ Finset.range size \ seen.toFinset := by
    simp [hnext, hunseen]
  have herase : Finset.range size \ (next :: seen).toFinset
      = (Finset.range size \ seen.toFinset).erase next := by
    rw [List.toFinset_cons, Finset.sdiff_insert]
  have hsum := Finset.add_sum_erase _ (fun vertex => cost (successors vertex)) hmem
  unfold work
  rw [herase, ← hsum, List.map_cons, List.sum_cons]
  simp only
  omega

theorem work_start (hentry : entry < size) :
    work successors size [(entry, successors entry)] [entry] + 1
      = walkSteps successors size := by
  have hpush : work successors size [(entry, successors entry)] [entry]
      = work successors size [] [] := work_push hentry List.not_mem_nil
  -- Every vertex is finished once, and every edge is followed once.
  have hall : ∀ size, ∑ vertex ∈ Finset.range size, cost (successors vertex)
      = size + ((List.range size).flatMap successors).length := by
    intro size
    induction size with
    | zero => rfl
    | succ size ih =>
      rw [Finset.sum_range_succ, ih, List.range_succ, List.flatMap_append,
        List.length_append]
      simp [cost]
      omega
  rw [hpush]
  unfold work walkSteps
  simp [hall]

/-- What the three steps of a walk keep: a vertex is finished, a successor is passed
over, or one is put on the stack. The bound on successors is part of it, since without
it there would be no end to the vertices. -/
structure Kept (successors : Nat → List Nat) (size : Nat)
    (Inv : List (Nat × List Nat) → List Nat → List Nat → Prop) : Prop where
  next_lt : ∀ {vertex next rest stack seen order},
    Inv ((vertex, next :: rest) :: stack) seen order → next < size
  finish : ∀ {vertex stack seen order},
    Inv ((vertex, []) :: stack) seen order → Inv stack seen (vertex :: order)
  skip : ∀ {vertex next rest stack seen order},
    Inv ((vertex, next :: rest) :: stack) seen order →
    next ∈ seen → Inv ((vertex, rest) :: stack) seen order
  push : ∀ {vertex next rest stack seen order},
    Inv ((vertex, next :: rest) :: stack) seen order →
    next ∉ seen → Inv ((next, successors next) :: (vertex, rest) :: stack)
      (next :: seen) order

namespace Kept

variable {Inv : List (Nat × List Nat) → List Nat → List Nat → Prop}

theorem exists_walk_end (hkept : Kept successors size Inv) {steps : Nat}
    {stack : List (Nat × List Nat)} {seen order : List Nat} (h : Inv stack seen order)
    (hsteps : work successors size stack seen < steps) :
    ∃ last, Inv [] last (walk successors steps stack seen order) := by
  fun_induction walk successors steps stack seen order with
  | case1 => exact absurd hsteps (Nat.not_lt_zero _)
  | case2 steps seen order => exact ⟨seen, h⟩
  | case3 steps vertex stack seen order ih =>
    refine ih (hkept.finish h) ?_
    simp only [work, List.map_cons, List.sum_cons, cost] at hsteps ⊢
    omega
  | case4 steps vertex next rest stack seen order hseen ih =>
    refine ih (hkept.skip h hseen) ?_
    simp only [work, List.map_cons, List.sum_cons, cost, List.length_cons] at hsteps ⊢
    omega
  | case5 steps vertex next rest stack seen order hunseen ih =>
    -- The vertex moves from the unseen ones to the stack at no cost, and one edge fewer
    -- is left to follow.
    refine ih (hkept.push h hunseen) ?_
    rw [work_push (hkept.next_lt h) hunseen]
    simp only [work, List.map_cons, List.sum_cons, cost, List.length_cons] at hsteps ⊢
    omega

/-- **What every step keeps holds of the visiting order**, with an empty stack. That the
walk has enough steps to empty it is part of the proof. -/
theorem reversePostorder (hkept : Kept successors size Inv) (hentry : entry < size)
    (h : Inv [(entry, successors entry)] [entry] []) :
    ∃ last, Inv [] last (reversePostorder successors size entry) := by
  refine hkept.exists_walk_end h ?_
  rw [← work_start hentry]
  exact Nat.lt_succ_self _

end Kept

theorem kept_exploring (entry : Nat)
    (hrange : ∀ vertex, ∀ target ∈ successors vertex, target < size) :
    Kept successors size (Exploring successors size entry) where
  next_lt h := h.rest_lt _ _ List.mem_cons_self _ List.mem_cons_self
  finish h := h.finish
  skip h hseen := h.skip [] hseen
  push h _ := (h.push (hrange _)).skip [_] List.mem_cons_self

/-- Before the first step the entry is on the stack, with all its successors to
follow. -/
theorem Exploring.initial (hrange : ∀ vertex, ∀ target ∈ successors vertex, target < size) :
    Exploring successors size entry [(entry, successors entry)] [entry] [] := by
  refine ⟨List.mem_cons_self, ?_, ?_, ?_, ?_⟩
  · intro vertex hseen
    cases List.mem_singleton.1 hseen
    exact .inr ⟨_, List.mem_cons_self⟩
  · intro vertex rest hmem target htarget
    cases List.mem_singleton.1 hmem
    exact .inr htarget
  · intro vertex hmem
    cases hmem
  · intro vertex rest hmem target htarget
    cases List.mem_singleton.1 hmem
    exact hrange entry target htarget

/-- **The visiting order holds the entry and all that can be reached**, since with a
vertex it holds its successors. -/
theorem closed_reversePostorder (hentry : entry < size)
    (hrange : ∀ vertex, ∀ target ∈ successors vertex, target < size) :
    Closed successors entry (reversePostorder successors size entry) := by
  obtain ⟨last, h⟩ :=
    (kept_exploring entry hrange).reversePostorder hentry (.initial hrange)
  exact h.closed

end Custody.Flow
