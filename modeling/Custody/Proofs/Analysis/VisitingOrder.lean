import Custody.Proofs.Analysis.Acyclic
import Custody.Proofs.Flow.Walk

/-!
# The order in which the blocks of a body are visited

The results on the depth-first walk, put together for the jumps of a body. The worklist
of the iteration holds positions in this order, so each block that can be reached needs
exactly one, and a block is best run after all that jump to it. Only a block that lies
on a loop can come before one of those.

That the iteration ends in a post-fixed point rests on the first of this alone: every
block has a position. The rest decides how often blocks are run. Where all jumps lead
forward one sweep is enough (`Proofs/Analysis/Acyclic`); where some lead back, the
blocks of a loop are visited again, and what they sent on the first time is transient
(`Proofs/Analysis/Transient`).
-/

set_option autoImplicit false

namespace Custody.Body

open Custody.Flow (Walk Reaches Topological)

/-- **The visiting order numbers the blocks depth first.** For a body whose entry and
jumps exist, the walk comes to its end from every state on its way, with the visiting
order as its result. That holds the blocks that can be reached, each once and the entry
first, and a jump leads forward in it, unless there is a path from where it leads to
where it comes from. Without loops all jumps lead forward. -/
theorem order_depthFirst {body : Body} (hbody : body.WellFormed) :
    (∃ seen, ∀ walk, Walk.Leads body.successors (.start body.entry) walk →
      Walk.Leads body.successors walk ⟨[], seen, body.order⟩) ∧
    body.order.Nodup ∧
    (∀ block, block ∈ body.order ↔ Reaches body.successors body.entry block) ∧
    body.order.head? = some body.entry ∧
    (∀ block ∈ body.order, ∀ target ∈ body.successors block,
      body.order.idxOf block < body.order.idxOf target ∨
        Reaches body.successors target block) ∧
    (body.Acyclic → Topological body.successors body.order) := by
  have hentry := hbody.entry_lt
  have hrange := hbody.successors_lt
  refine ⟨Flow.reversePostorder_ends hentry hrange,
    Flow.nodup_reversePostorder hentry hrange,
    fun block => Flow.mem_reversePostorder_iff hentry hrange,
    Flow.head?_reversePostorder hentry hrange, ?_, ?_⟩
  · intro block hblock target hedge
    exact Flow.forward_or_reaches hentry hrange hblock hedge
  · intro hacyclic
    exact hacyclic.topological_order hbody

/-- A loop that is left from its header, with a block that jumps back twice and one that
nothing leads to. -/
def headerLoop : Body :=
  ⟨0, [⟨[], .goto 1⟩, ⟨[], .branch .unknown 2 3⟩, ⟨[], .branch .unknown 1 1⟩,
    ⟨[], .leave none⟩, ⟨[], .goto 2⟩]⟩

/-- The body of the loop comes after the block that follows the loop, since the walk
goes into it first; the block that nothing leads to has no place. -/
theorem order_depthFirst_headerLoop :
    headerLoop.WellFormed ∧ headerLoop.order = [0, 1, 3, 2] ∧
    Reaches headerLoop.successors 1 2 ∧
      ¬Reaches headerLoop.successors 0 4 ∧
      ∃ seen, Walk.Leads headerLoop.successors (.start 0) ⟨[], seen, [0, 1, 3, 2]⟩ := by
  have hbody : headerLoop.WellFormed := by decide
  have horder : headerLoop.order = [0, 1, 3, 2] := by decide
  obtain ⟨⟨seen, hends⟩, -, hreached, -, hedges, -⟩ := order_depthFirst hbody
  rw [horder] at hends hreached hedges
  have hback : Reaches headerLoop.successors 1 2 :=
    (hedges 2 (by decide) 1 (by decide)).resolve_left (by decide)
  have hapart : ¬Reaches headerLoop.successors 0 4 := by
    intro hpath
    exact absurd ((hreached 4).2 hpath) (by decide)
  exact ⟨hbody, horder, hback, hapart, seen, hends _ .refl⟩

end Custody.Body
