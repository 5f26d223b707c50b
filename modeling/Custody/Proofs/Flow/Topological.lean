import Custody.Proofs.Flow.Order
import Mathlib.Data.List.Nodup
import Mathlib.Logic.Relation

/-!
# The visiting order and the edges

The walk puts a vertex in front of all that were done before it. An edge can then lead
back, to a vertex further in front, only if its target was still on the stack when its
source was done, and from what is on the stack there is a path to all that stands above.
So an edge leads back only where it closes a cycle, and without cycles every edge leads
forward (`topological_reversePostorder`).

`DepthFirst` adds to `Exploring` what the walk keeps of the order.

What is kept about edges that lead back is a statement about paths, and not that there
is none. In a graph with cycles there are some, and an invariant that excludes them
could not be kept; with "there is a path that returns" nothing has to be assumed of the
graph until the walk is over. The same invariant then gives both the general statement
(`forward_or_reaches`) and the one for graphs without cycles.
-/

set_option autoImplicit false

namespace Custody.Flow

variable {successors : Nat → List Nat} {size entry : Nat}

def Edge (successors : Nat → List Nat) (source target : Nat) : Prop :=
  target ∈ successors source

/-- There is a path between vertices, of any number of edges. -/
def Reaches (successors : Nat → List Nat) : Nat → Nat → Prop :=
  Relation.ReflTransGen (Edge successors)

/-- No vertex that can be reached from the entry lies on a cycle. What cannot be reached
does not matter, since the walk never sees it. -/
def Acyclic (successors : Nat → List Nat) (entry : Nat) : Prop :=
  ∀ vertex, Reaches successors entry vertex →
    ¬Relation.TransGen (Edge successors) vertex vertex

/-- An order in which every edge leads forward. There is one only if there are no
cycles, and then `reversePostorder` is one. -/
structure Topological (successors : Nat → List Nat) (order : List Nat) : Prop where
  nodup : order.Nodup
  forward : ∀ vertex ∈ order, ∀ target ∈ successors vertex,
    order.idxOf vertex < order.idxOf target

/-- The walk under way, with what it keeps of the order: no vertex has two places, the
vertices on the stack lie on a path to its top, and where an edge leads back from a
vertex that is done, there is a path that returns. Edges to vertices on the stack are
kept apart (`returns_stack`), because those vertices will stand further in front once
they are done. -/
structure DepthFirst (successors : Nat → List Nat) (size entry : Nat)
    (stack : List (Nat × List Nat)) (seen order : List Nat) :
    Prop extends Exploring successors size entry stack seen order where
  seen_reached : ∀ vertex ∈ seen, Reaches successors entry vertex
  placed_seen : ∀ vertex ∈ stack.map (·.1) ++ order, vertex ∈ seen
  nodup : (stack.map (·.1) ++ order).Nodup
  rest_subset : ∀ vertex rest, (vertex, rest) ∈ stack → rest ⊆ successors vertex
  descends : (stack.map (·.1)).Pairwise fun above below => Reaches successors below above
  returns_stack : ∀ vertex ∈ order, ∀ other ∈ stack.map (·.1), other ∈ successors vertex →
    Reaches successors other vertex
  returns_order : order.Pairwise fun first later =>
    first ∈ successors later → Reaches successors first later

namespace DepthFirst

variable {vertex next : Nat} {rest : List Nat} {stack : List (Nat × List Nat)}
  {seen order : List Nat}

theorem finish (h : DepthFirst successors size entry ((vertex, []) :: stack) seen order) :
    DepthFirst successors size entry stack seen (vertex :: order) where
  toExploring := h.toExploring.finish
  seen_reached := h.seen_reached
  placed_seen := by
    intro other hother
    exact h.placed_seen other (List.perm_middle.mem_iff.1 hother)
  nodup := List.perm_middle.nodup_iff.2 h.nodup
  rest_subset other rest hmem := h.rest_subset other rest (List.mem_cons_of_mem _ hmem)
  descends := (List.pairwise_cons.1 h.descends).2
  returns_stack := by
    intro other hother below hbelow hedge
    rcases List.mem_cons.1 hother with rfl | hother
    · exact (List.pairwise_cons.1 h.descends).1 below hbelow
    · exact h.returns_stack other hother below (List.mem_cons_of_mem _ hbelow) hedge
  returns_order := by
    refine List.pairwise_cons.2 ⟨?_, h.returns_order⟩
    intro later hlater hedge
    exact h.returns_stack later hlater vertex List.mem_cons_self hedge

/-- Which successors are still to be followed does not matter to the order, anywhere on
the stack. -/
theorem skip (above : List (Nat × List Nat))
    (h : DepthFirst successors size entry (above ++ (vertex, next :: rest) :: stack)
      seen order)
    (hseen : next ∈ seen) :
    DepthFirst successors size entry (above ++ (vertex, rest) :: stack) seen order := by
  have hplaces :
      (above ++ (vertex, rest) :: stack).map (·.1) =
        (above ++ (vertex, next :: rest) :: stack).map (·.1) := by
    simp
  refine ⟨h.toExploring.skip above hseen, h.seen_reached, ?_, ?_, ?_, ?_, ?_,
    h.returns_order⟩
  · rw [hplaces]
    exact h.placed_seen
  · rw [hplaces]
    exact h.nodup
  · intro other rest' hmem
    simp only [List.mem_append, List.mem_cons, Prod.mk.injEq] at hmem
    rcases hmem with hmem | ⟨rfl, rfl⟩ | hmem
    · exact h.rest_subset other rest' (by simp [hmem])
    · intro target htarget
      exact h.rest_subset other (next :: rest') (by simp) (List.mem_cons_of_mem _ htarget)
    · exact h.rest_subset other rest' (by simp [hmem])
  · rw [hplaces]
    exact h.descends
  · rw [hplaces]
    exact h.returns_stack

/-- A vertex that is seen for the first time lies behind an edge from the top of the
stack. -/
theorem push
    (h : DepthFirst successors size entry ((vertex, next :: rest) :: stack) seen order)
    (hunseen : next ∉ seen) (hlt : ∀ target ∈ successors next, target < size) :
    DepthFirst successors size entry
      ((next, successors next) :: (vertex, next :: rest) :: stack) (next :: seen)
      order := by
  have hedge : Edge successors vertex next :=
    h.rest_subset vertex _ List.mem_cons_self List.mem_cons_self
  refine ⟨h.toExploring.push hlt, ?_, ?_, ?_, ?_, ?_, ?_, h.returns_order⟩
  · intro other hother
    rcases List.mem_cons.1 hother with rfl | hother
    · exact .tail (h.seen_reached vertex (h.placed_seen vertex (by simp))) hedge
    · exact h.seen_reached other hother
  · intro other hother
    rcases List.mem_cons.1 hother with rfl | hother
    · exact List.mem_cons_self
    · exact List.mem_cons_of_mem _ (h.placed_seen other hother)
  · exact List.nodup_cons.2 ⟨fun hmem => hunseen (h.placed_seen next hmem), h.nodup⟩
  · intro other rest' hmem
    rcases List.mem_cons.1 hmem with heq | hmem
    · cases heq
      exact List.Subset.refl _
    · exact h.rest_subset other rest' hmem
  · refine List.pairwise_cons.2 ⟨?_, h.descends⟩
    intro below hbelow
    rcases List.mem_cons.1 hbelow with rfl | hbelow
    · exact .single hedge
    · exact .tail ((List.pairwise_cons.1 h.descends).1 below hbelow) hedge
  · -- No vertex that is done has an edge to the new one, which would have been seen before.
    intro done hdone other hother hback
    rcases List.mem_cons.1 hother with rfl | hother
    · exact absurd (h.done done hdone other hback) hunseen
    · exact h.returns_stack done hdone other hother hback

theorem initial (hrange : ∀ vertex, ∀ target ∈ successors vertex, target < size) :
    DepthFirst successors size entry [(entry, successors entry)] [entry] [] := by
  refine ⟨.initial hrange, ?_, by simp, by simp, ?_, by simp, by simp, .nil⟩
  · intro vertex hseen
    rw [List.mem_singleton.1 hseen]
    exact .refl
  · intro vertex rest hmem
    cases List.mem_singleton.1 hmem
    exact List.Subset.refl _

end DepthFirst

theorem kept_depthFirst (entry : Nat)
    (hrange : ∀ vertex, ∀ target ∈ successors vertex, target < size) :
    Kept successors size (DepthFirst successors size entry) where
  next_lt h := h.rest_lt _ _ List.mem_cons_self _ List.mem_cons_self
  finish h := h.finish
  skip h hseen := h.skip [] hseen
  push h hunseen := (h.push hunseen (hrange _)).skip [_] List.mem_cons_self

theorem depthFirst_reversePostorder (hentry : entry < size)
    (hrange : ∀ vertex, ∀ target ∈ successors vertex, target < size) :
    ∃ seen, DepthFirst successors size entry
      [] seen (reversePostorder successors size entry) :=
  (kept_depthFirst entry hrange).reversePostorder hentry (.initial hrange)

theorem reaches_of_mem_reversePostorder (hentry : entry < size)
    (hrange : ∀ vertex, ∀ target ∈ successors vertex, target < size) {vertex : Nat}
    (h : vertex ∈ reversePostorder successors size entry) :
    Reaches successors entry vertex := by
  obtain ⟨seen, hlast⟩ := depthFirst_reversePostorder hentry hrange
  exact hlast.seen_reached vertex (hlast.placed_seen vertex h)

theorem Closed.mem_of_reaches {order : List Nat} (h : Closed successors entry order)
    {vertex : Nat} (hpath : Reaches successors entry vertex) : vertex ∈ order := by
  induction hpath with
  | refl => exact h.entry_mem
  | tail _ hedge ih => exact h.successors_mem _ ih _ hedge

theorem mem_reversePostorder_iff (hentry : entry < size)
    (hrange : ∀ vertex, ∀ target ∈ successors vertex, target < size) {vertex : Nat} :
    vertex ∈ reversePostorder successors size entry ↔ Reaches successors entry vertex :=
  ⟨reaches_of_mem_reversePostorder hentry hrange,
    (closed_reversePostorder hentry hrange).mem_of_reaches⟩

theorem nodup_reversePostorder (hentry : entry < size)
    (hrange : ∀ vertex, ∀ target ∈ successors vertex, target < size) :
    (reversePostorder successors size entry).Nodup := by
  obtain ⟨seen, h⟩ := depthFirst_reversePostorder hentry hrange
  exact h.nodup

/-- An edge leads forward or closes a cycle. -/
theorem forward_or_reaches (hentry : entry < size)
    (hrange : ∀ vertex, ∀ target ∈ successors vertex, target < size)
    {vertex target : Nat} (hvertex : vertex ∈ reversePostorder successors size entry)
    (hedge : target ∈ successors vertex) :
    (reversePostorder successors size entry).idxOf vertex <
      (reversePostorder successors size entry).idxOf target ∨
      Reaches successors target vertex := by
  obtain ⟨seen, h⟩ := depthFirst_reversePostorder hentry hrange
  have htarget :=
    (closed_reversePostorder hentry hrange).successors_mem vertex hvertex target hedge
  have hlt := List.idxOf_lt_length_iff.2 hvertex
  rcases Nat.lt_trichotomy ((reversePostorder successors size entry).idxOf target)
    ((reversePostorder successors size entry).idxOf vertex) with hbefore | hsame | hafter
  · have hreturns :=
      List.pairwise_iff_getElem.1 h.returns_order _ _
        (Nat.lt_trans hbefore hlt) hlt hbefore
    rw [List.getElem_idxOf, List.getElem_idxOf] at hreturns
    exact .inr (hreturns hedge)
  · rw [List.idxOf_inj htarget] at hsame
    rw [hsame]
    exact .inr .refl
  · exact .inl hafter

/-- **Without cycles every edge leads forward.** An edge that does not has a path that
returns, and with it makes a cycle. -/
theorem topological_reversePostorder (hentry : entry < size)
    (hrange : ∀ vertex, ∀ target ∈ successors vertex, target < size)
    (hacyclic : Acyclic successors entry) :
    Topological successors (reversePostorder successors size entry) := by
  refine ⟨nodup_reversePostorder hentry hrange, fun vertex hvertex target hedge => ?_⟩
  refine (forward_or_reaches hentry hrange hvertex hedge).resolve_right fun hpath => ?_
  exact hacyclic vertex (reaches_of_mem_reversePostorder hentry hrange hvertex)
    (.head' hedge hpath)

end Custody.Flow
