import Custody.Proofs.Flow.Topological

/-!
# The walk comes to its end

`reversePostorder` lets the walk take a number of steps that is computed beforehand, and
each vertex on its stack carries the list of successors that are left. Here the same
walk is told without either: as steps that are taken as long as there are any, and with
the number of successors that each vertex on the stack has followed so far.

There is one way to go on from every state (`Step.rightUnique`), so there is one run. It
ends, with an empty stack and with the order that `reversePostorder` gives
(`reversePostorder_ends`); and since the entry lies at the bottom of the stack to the
last step, it is the first in that order (`head?_reversePostorder`).

This is what a depth-first search is in a book: a stack of vertices with counters, and
three rules. It has no bound in it, so that it ends is a statement and not a consequence
of how it is written. The two are tied together by `pending`, which turns counters into
lists of what is left, and by one more invariant of the walk (`Walked`), that its state
is `pending` of a state which the rules lead to.
-/

set_option autoImplicit false

namespace Custody.Flow

variable {successors : Nat → List Nat} {size entry : Nat}

/-- A walk under way: the vertices on the stack, each with how many of its successors
were followed, those that were seen, and those that are done. -/
structure Walk where
  stack : List (Nat × Nat)
  seen : List Nat
  order : List Nat

namespace Walk

def start (entry : Nat) : Walk := ⟨[(entry, 0)], [entry], []⟩

/-- The vertex on top of the stack is done if it has no successor left. Otherwise its
next one is passed over if it was seen before, and else put on the stack. The cases
exclude each other, which is all that `rightUnique` needs. -/
inductive Step (successors : Nat → List Nat) : Walk → Walk → Prop
  | finish {vertex followed : Nat} {stack : List (Nat × Nat)} {seen order : List Nat}
      (hnone : (successors vertex)[followed]? = none) :
      Step successors ⟨(vertex, followed) :: stack, seen, order⟩
        ⟨stack, seen, vertex :: order⟩
  | skip {vertex followed next : Nat} {stack : List (Nat × Nat)} {seen order : List Nat}
      (hnext : (successors vertex)[followed]? = some next) (hseen : next ∈ seen) :
      Step successors ⟨(vertex, followed) :: stack, seen, order⟩
        ⟨(vertex, followed + 1) :: stack, seen, order⟩
  | push {vertex followed next : Nat} {stack : List (Nat × Nat)} {seen order : List Nat}
      (hnext : (successors vertex)[followed]? = some next) (hunseen : next ∉ seen) :
      Step successors ⟨(vertex, followed) :: stack, seen, order⟩
        ⟨(next, 0) :: (vertex, followed + 1) :: stack, next :: seen, order⟩

def Leads (successors : Nat → List Nat) : Walk → Walk → Prop :=
  Relation.ReflTransGen (Step successors)

theorem Step.rightUnique : Relator.RightUnique (Step successors) := by
  intro walk a b ha hb
  -- The three steps exclude each other: there is a successor to follow or not, and it
  -- was seen or not.
  cases ha with
  | finish hnone =>
    cases hb with
    | finish => rfl
    | skip hnext => simp [hnone] at hnext
    | push hnext => simp [hnone] at hnext
  | skip hnext hseen =>
    cases hb with
    | finish hnone => simp [hnext] at hnone
    | skip => rfl
    | push hnext' hunseen =>
      rw [hnext] at hnext'
      cases hnext'
      exact absurd hseen hunseen
  | push hnext hunseen =>
    cases hb with
    | finish hnone => simp [hnext] at hnone
    | skip hnext' hseen =>
      rw [hnext] at hnext'
      cases hnext'
      exact absurd hseen hunseen
    | push hnext' =>
      rw [hnext] at hnext'
      cases hnext'
      rfl

/-- A walk that comes to an empty stack does so from every state on its way. No rule
applies to an empty stack, so a run that has come there is over. -/
theorem Leads.resume {walk middle : Walk} {seen order : List Nat}
    (hend : Leads successors walk ⟨[], seen, order⟩)
    (h : Leads successors walk middle) : Leads successors middle ⟨[], seen, order⟩ := by
  rcases h.total_of_right_unique Step.rightUnique hend with hahead | hbehind
  · exact hahead
  · rcases hbehind.cases_head with heq | ⟨next, hstep, -⟩
    · rw [heq]
      exact .refl
    · cases hstep

/-- The stack with the successors that are left in place of the number of those that
were followed. -/
def pending (successors : Nat → List Nat) (stack : List (Nat × Nat)) :
    List (Nat × List Nat) :=
  stack.map fun frame => (frame.1, (successors frame.1).drop frame.2)

theorem pending_eq_cons {vertex : Nat} {rest : List Nat} {frames : List (Nat × Nat)}
    {stack : List (Nat × List Nat)}
    (h : pending successors frames = (vertex, rest) :: stack) :
    ∃ followed below, frames = (vertex, followed) :: below ∧
      (successors vertex).drop followed = rest ∧
      pending successors below = stack := by
  obtain ⟨⟨vertex', followed⟩, below, rfl, hframe, hbelow⟩ := List.map_eq_cons_iff.1 h
  cases hframe
  exact ⟨followed, below, rfl, rfl, hbelow⟩

/-- A vertex with a successor left is one whose next successor is this one, and to
follow it leaves the others. -/
theorem pending_eq_cons_next {vertex next : Nat} {rest : List Nat}
    {frames : List (Nat × Nat)} {stack : List (Nat × List Nat)}
    (h : pending successors frames = (vertex, next :: rest) :: stack) :
    ∃ followed below, frames = (vertex, followed) :: below ∧
      (successors vertex)[followed]? = some next ∧
      pending successors ((vertex, followed + 1) :: below) = (vertex, rest) :: stack := by
  obtain ⟨followed, below, rfl, hdrop, rfl⟩ := pending_eq_cons h
  refine ⟨followed, below, rfl, ?_, ?_⟩
  · rw [← List.head?_drop, hdrop, List.head?_cons]
  · have hrest : (successors vertex).drop (followed + 1) = rest := by
      rw [← List.tail_drop, hdrop, List.tail_cons]
    simp only [pending, List.map_cons, hrest]

end Walk

open Walk (Step pending)

/-- The walk under way, as one that came here step by step and has the entry at the
bottom of its stack, or in front of the order once the stack is empty. -/
structure Walked (successors : Nat → List Nat) (size entry : Nat)
    (stack : List (Nat × List Nat)) (seen order : List Nat) :
    Prop extends DepthFirst successors size entry stack seen order where
  bottom : ((stack.map (·.1)).reverse ++ order).head? = some entry
  led : ∃ frames, pending successors frames = stack ∧
    Walk.Leads successors (.start entry) ⟨frames, seen, order⟩

namespace Walked

variable {vertex next : Nat} {rest : List Nat} {stack : List (Nat × List Nat)}
  {seen order : List Nat}

theorem finish (h : Walked successors size entry ((vertex, []) :: stack) seen order) :
    Walked successors size entry stack seen (vertex :: order) where
  toDepthFirst := h.toDepthFirst.finish
  bottom := by simpa using h.bottom
  led := by
    obtain ⟨frames, hframes, hled⟩ := h.led
    obtain ⟨followed, below, rfl, hdrop, hbelow⟩ := Walk.pending_eq_cons hframes
    have hnone : (successors vertex)[followed]? = none := by
      rw [← List.head?_drop, hdrop, List.head?_nil]
    exact ⟨below, hbelow, hled.tail (.finish hnone)⟩

theorem skip
    (h : Walked successors size entry ((vertex, next :: rest) :: stack) seen order)
    (hseen : next ∈ seen) :
    Walked successors size entry ((vertex, rest) :: stack) seen order where
  toDepthFirst := h.toDepthFirst.skip [] hseen
  bottom := by simpa using h.bottom
  led := by
    obtain ⟨frames, hframes, hled⟩ := h.led
    obtain ⟨followed, below, rfl, hnext, hrest⟩ := Walk.pending_eq_cons_next hframes
    exact ⟨_, hrest, hled.tail (.skip hnext hseen)⟩

theorem push
    (h : Walked successors size entry ((vertex, next :: rest) :: stack) seen order)
    (hunseen : next ∉ seen) (hlt : ∀ target ∈ successors next, target < size) :
    Walked successors size entry ((next, successors next) :: (vertex, rest) :: stack)
      (next :: seen) order where
  toDepthFirst := (h.toDepthFirst.push hunseen hlt).skip [_] List.mem_cons_self
  bottom := by simpa [List.head?_append] using h.bottom
  led := by
    obtain ⟨frames, hframes, hled⟩ := h.led
    obtain ⟨followed, below, rfl, hnext, hrest⟩ := Walk.pending_eq_cons_next hframes
    exact ⟨(next, 0) :: (vertex, followed + 1) :: below, congrArg _ hrest,
      hled.tail (.push hnext hunseen)⟩

theorem initial (hrange : ∀ vertex, ∀ target ∈ successors vertex, target < size) :
    Walked successors size entry [(entry, successors entry)] [entry] [] :=
  ⟨.initial hrange, rfl, [(entry, 0)], rfl, .refl⟩

end Walked

theorem kept_walked (entry : Nat)
    (hrange : ∀ vertex, ∀ target ∈ successors vertex, target < size) :
    Kept successors size (Walked successors size entry) where
  next_lt h := h.rest_lt _ _ List.mem_cons_self _ List.mem_cons_self
  finish h := h.finish
  skip h hseen := h.skip hseen
  push h hunseen := h.push hunseen (hrange _)

theorem walked_reversePostorder (hentry : entry < size)
    (hrange : ∀ vertex, ∀ target ∈ successors vertex, target < size) :
    ∃ seen, Walked successors size entry [] seen (reversePostorder successors size entry) :=
  (kept_walked entry hrange).reversePostorder hentry (.initial hrange)

/-- **The walk ends** with the visiting order, from every state on its way. There is one
way to go on, so this is the only end it can come to. -/
theorem reversePostorder_ends (hentry : entry < size)
    (hrange : ∀ vertex, ∀ target ∈ successors vertex, target < size) :
    ∃ seen, ∀ walk, Walk.Leads successors (.start entry) walk →
      Walk.Leads successors walk ⟨[], seen, reversePostorder successors size entry⟩ := by
  obtain ⟨seen, h⟩ := walked_reversePostorder hentry hrange
  obtain ⟨frames, hframes, hled⟩ := h.led
  cases List.map_eq_nil_iff.1 hframes
  exact ⟨seen, fun walk hwalk => hled.resume hwalk⟩

theorem head?_reversePostorder (hentry : entry < size)
    (hrange : ∀ vertex, ∀ target ∈ successors vertex, target < size) :
    (reversePostorder successors size entry).head? = some entry := by
  obtain ⟨seen, h⟩ := walked_reversePostorder hentry hrange
  exact h.bottom

end Custody.Flow
